import FencedCode.Text.Numeral

/-! The numbers that plain scalars of YAML stand for. -/
namespace FencedCode.Yaml

/-- Zeros before other digits make a text no number. -/
def hasLeadingZero (t : Text) : Bool :=
  let t := match t with
    | '-' :: r => r
    | '+' :: r => r
    | t => t
  match t with
  | '0' :: c :: r => (c :: r).all Char.isDigit
  | _ => false

/-- Digits after a mark of their base; decimal ones have no mark. -/
def based? (t : Text) : Option Nat :=
  match t with
  | '0' :: 'x' :: r => Text.digits? 16 r
  | '0' :: 'o' :: r => Text.digits? 8 r
  | '0' :: 'b' :: r => Text.digits? 2 r
  | t => Text.digits? 10 t

def integer? (t : Text) : Option Int :=
  if hasLeadingZero t then none
  else match t with
    | '-' :: r => (based? r).map fun n => -(n : Int)
    | '+' :: r => (based? r).map fun n => (n : Int)
    | r => (based? r).map fun n => (n : Int)

def float? (t : Text) : Option Float :=
  let unsigned := match t with
    | '+' :: r => r
    | t => t
  if [".inf", ".Inf", ".INF"].any (·.toList == unsigned) then some (1 / 0)
  else if ["-.inf", "-.Inf", "-.INF"].any (·.toList == t) then some (-1 / 0)
  else if [".nan", ".NaN", ".NAN"].any (·.toList == t) then some (0 / 0)
  else match t with
    | '+' :: r => (Text.decimal? r).bind Decimal.toFloat?
    | '-' :: r => ((Text.decimal? r).bind Decimal.toFloat?).map fun x => -x
    | r => (Text.decimal? r).bind Decimal.toFloat?

end FencedCode.Yaml
