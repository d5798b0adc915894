import FencedCode.Format.Options
import FencedCode.Text.Digit
import FencedCode.Text.Numeral

/-! The reports of an external formatter on code that it cannot parse. -/
namespace FencedCode

/-- A report as it is written: two numbers and the rest of the line. -/
structure ParseReport where
  line : Text
  column : Text
  reason : Text
  deriving DecidableEq

namespace ParseReport

/-- The words that start a report. -/
def opening : Text := "Cannot parse".toList

def versionClause : Text := " for target version ".toList

/-- Drops a clause on the target version, which runs to a colon. -/
def dropClause? (t : Text) : Option Text :=
  match versionClause.isPrefixOf? t with
  | none => some t
  | some r =>
    if r.head? = some ':' then none else some (r.dropWhile (· != ':'))

/-- Digits and the colon after them. -/
def number? (t : Text) : Option (Text × Text) :=
  match t.dropWhile isDecimalDigit with
  | ':' :: r =>
    let digits := t.takeWhile isDecimalDigit
    if digits.isEmpty then none else some (digits, r)
  | _ => none

/-- The report that starts right here. -/
def ofStart? (t : Text) : Option ParseReport := do
  let t ← opening.isPrefixOf? t
  let t ← dropClause? t
  let t ← [':', ' '].isPrefixOf? t
  let (line, t) ← number? t
  let (column, t) ← number? t
  let t := if t.head? = some ' ' then t.drop 1 else t
  some ⟨line, column, t.takeWhile (· != '\n')⟩

/-- The first report in a text. -/
def find? : Text → Option ParseReport
  | [] => none
  | c :: r => (ofStart? (c :: r)).or (find? r)

/-- The value of ASCII digits, if it has at most 64 bits. -/
def value? (digits : Text) : Option Nat := do
  let n ← Text.digits? 10 digits
  if fitsWord n then some n else none

/-- The error that a report stands for. -/
def error? (r : ParseReport) : Option FormatError := do
  let line ← value? r.line
  let column ← value? r.column
  some (.unparsable line column r.reason.trim.toString)

end ParseReport

/-- The parse error that the first report in a text stands for. -/
def parseError? (t : Text) : Option FormatError := (ParseReport.find? t).bind ParseReport.error?

end FencedCode
