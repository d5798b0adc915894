import FencedCode.Toml.Value

/-! TOML documents as text. -/
namespace FencedCode.Toml

inductive WriteError
  | integer (n : Int)
  deriving DecidableEq

def WriteError.message : WriteError → String
  | .integer n => s!"{n} does not fit an integer of 64 bits"

/-- The longest run of a character. -/
def longestRun (c : Char) (run : Nat) : Text → Nat
  | [] => run
  | d :: r => if c = d then longestRun c (run + 1) r else max run (longestRun c 0 r)

/-- Control characters that no string holds as they are. -/
def isControl (c : Char) : Bool :=
  (c.toNat ≤ 0x1f && c != '\t' && c != '\n') || c.toNat == 0x7f

/-- How a string is written. The forms on several lines have a break after the opening quotes if
the text has one. -/
inductive StringForm
  | basic
  | literal
  | basicLines
  | literalLines
  deriving DecidableEq

/-- The first form that needs no escape sequences; without one, a form that has them. -/
def stringForm (t : Text) : StringForm :=
  let control := t.any isControl
  let backslash := t.elem '\\'
  let broken := t.elem '\n'
  let double := longestRun '"' 0 t
  let single := longestRun '\'' 0 t
  if !control && !backslash && double == 0 && !broken then .basic
  else if !control && single == 0 && !broken then .literal
  else if !control && !backslash && double ≤ 2 then .basicLines
  else if !control && single ≤ 2 then .literalLines
  else if broken then .basicLines
  else .basic

def hexDigits (n : Nat) : Text :=
  let digits := (Nat.toDigits 16 n).map Char.toUpper
  List.replicate (4 - digits.length) '0' ++ digits

/-- Writes a character in a string with escape sequences. -/
def escape (lines : Bool) (c : Char) : Text :=
  if c = '\x08' then ['\\', 'b']
  else if c = '\t' then ['\\', 't']
  else if c = '\n' then if lines then ['\n'] else ['\\', 'n']
  else if c = '\x0c' then ['\\', 'f']
  else if c = '\r' then ['\\', 'r']
  else if c = '\\' then ['\\', '\\']
  else if isControl c then '\\' :: 'u' :: hexDigits c.toNat
  else [c]

/-- Writes the characters of a string with escape sequences. On several lines two quotes may stand
together; `quotes` of them come just before. -/
def escapeAll (lines : Bool) (quotes : Nat) : Text → Text
  | [] => []
  | c :: r =>
    if c = '"' then
      if lines && quotes < 2 then c :: escapeAll lines (quotes + 1) r
      else '\\' :: c :: escapeAll lines 0 r
    else escape lines c ++ escapeAll lines 0 r

def writeString (t : Text) : Text :=
  let first := if t.elem '\n' then ['\n'] else []
  match stringForm t with
  | .basic => ['"'] ++ escapeAll false 0 t ++ ['"']
  | .literal => ['\''] ++ t ++ ['\'']
  | .basicLines => ['"', '"', '"'] ++ first ++ escapeAll true 0 t ++ ['"', '"', '"']
  | .literalLines => ['\'', '\'', '\''] ++ first ++ t ++ ['\'', '\'', '\'']

def isBareKey (t : Text) : Bool :=
  !t.isEmpty && t.all fun c => c.isAlphanum || c == '_' || c == '-'

def writeKey (t : Text) : Text := if isBareKey t then t else writeString t

mutual

/-- Writes a value on one line, apart from the breaks in its strings. -/
def writeValue : Value → Except WriteError Text
  | .text t => .ok (writeString t)
  | .integer n =>
    if fitsSignedWord n then .ok (toString n).toList else .error (.integer n)
  | .float literal => .ok literal
  | .boolean b => .ok (if b then "true" else "false").toList
  | .time literal => .ok literal
  | .array items => do .ok (['['] ++ List.intercalate [',', ' '] (← writeItems items) ++ [']'])
  | .table entries => do
    .ok (['\x7b', ' '] ++ List.intercalate [',', ' '] (← writeEntries entries) ++ [' ', '\x7d'])

def writeItems : List Value → Except WriteError (List Text)
  | [] => .ok []
  | v :: r => do .ok ((← writeValue v) :: (← writeItems r))

def writeEntries : List (Text × Value) → Except WriteError (List Text)
  | [] => .ok []
  | (k, v) :: r => do
    .ok ((writeKey k ++ [' ', '=', ' '] ++ (← writeValue v)) :: (← writeEntries r))

end

/-- Writes a table as a document, one line for each key. -/
def write (t : Table) : Except WriteError Text := do
  .ok ((← writeEntries t).flatMap (· ++ ['\n']))

end FencedCode.Toml
