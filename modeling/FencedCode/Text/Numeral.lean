import FencedCode.Text.Basic

/-! Numbers written with digits. -/
namespace FencedCode

def hexDigit? (c : Char) : Option Nat :=
  if c.isDigit then some (c.toNat - '0'.toNat)
  else if 'a' ≤ c ∧ c ≤ 'f' then some (c.toNat - 'a'.toNat + 10)
  else if 'A' ≤ c ∧ c ≤ 'F' then some (c.toNat - 'A'.toNat + 10)
  else none

/-- A code point that is no surrogate. -/
def scalarValue? (n : Nat) : Option Char :=
  if (0xd800 ≤ n && n ≤ 0xdfff) || 0x10ffff < n then none else some (Char.ofNat n)

/-- The value of digits of a base, of which there is at least one. -/
def Text.digits? (base : Nat) (t : Text) : Option Nat :=
  if t.isEmpty then none
  else t.foldlM (fun n c => do
    let d ← hexDigit? c
    if d < base then some (n * base + d) else none) 0

/-- Natural numbers of at most 64 bits. -/
def fitsWord (n : Nat) : Bool := n < 0x10000000000000000

theorem fitsWord_of_le {m n : Nat} (h : fitsWord n) (hm : m ≤ n) : fitsWord m :=
  decide_eq_true (Nat.lt_of_le_of_lt hm (of_decide_eq_true h))

/-- What a word of 64 bits holds of a number. -/
def wrapWord (n : Nat) : Nat := n % 0x10000000000000000

theorem wrapWord_of_fits {n : Nat} (h : fitsWord n) : wrapWord n = n :=
  Nat.mod_eq_of_lt (of_decide_eq_true h)

@[simp] theorem wrapWord_wrapWord_add (m n : Nat) :
    wrapWord (wrapWord m + n) = wrapWord (m + n) :=
  Nat.mod_add_mod m _ n

@[simp] theorem wrapWord_add_wrapWord (m n : Nat) :
    wrapWord (m + wrapWord n) = wrapWord (m + n) :=
  Nat.add_mod_mod m n _

/-- Integers of at most 64 bits, one of them for the sign. -/
def fitsSignedWord (n : Int) : Bool := -0x8000000000000000 ≤ n && n < 0x8000000000000000

/-- A decimal number, as digits and a power of ten. -/
structure Decimal where
  digits : Nat
  exponent : Int
  deriving DecidableEq

/-- Digits, with a point anywhere, and perhaps an exponent. -/
def Text.decimal? (t : Text) : Option Decimal := do
  let whole := t.takeWhile Char.isDigit
  let t := t.dropWhile Char.isDigit
  let (part, t) := match t with
    | '.' :: r => (r.takeWhile Char.isDigit, r.dropWhile Char.isDigit)
    | t => ([], t)
  let digits ← Text.digits? 10 (whole ++ part)
  let scale := -(part.length : Int)
  match t with
  | [] => some ⟨digits, scale⟩
  | e :: r =>
    if e = 'e' ∨ e = 'E' then
      match r with
      | '-' :: r => (Text.digits? 10 r).map fun n => ⟨digits, scale - n⟩
      | '+' :: r => (Text.digits? 10 r).map fun n => ⟨digits, scale + n⟩
      | r => (Text.digits? 10 r).map fun n => ⟨digits, scale + n⟩
    else none

/-- The nearest double, or `none` if that is infinite. Powers of ten that settle the matter are not
computed. -/
def Decimal.toFloat? (d : Decimal) : Option Float :=
  if d.digits = 0 then some 0
  else
    let order := d.exponent + (Nat.log2 d.digits : Int) * 3 / 10
    if order < -400 then some 0
    else if 400 < order then none
    else
      let x := match d.exponent with
        | .ofNat n => Float.ofScientific d.digits false n
        | .negSucc n => Float.ofScientific d.digits true (n + 1)
      if x.isInf then none else some x

end FencedCode
