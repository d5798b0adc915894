import FencedCode.Text.Numeral

/-! The values of TOML documents. -/
namespace FencedCode.Toml

/-- What makes a text no TOML document. -/
inductive Problem
  | key
  | value
  | unterminated
  | escape
  | character
  | number
  | separator
  | lineEnd
  | depth
  | repeatedKey
  | notTable
  deriving DecidableEq

def Problem.message : Problem → String
  | .key => "expected a key"
  | .value => "expected a value"
  | .unterminated => "unterminated string"
  | .escape => "invalid escape sequence"
  | .character => "a character is not allowed here"
  | .number => "invalid number"
  | .separator => "expected a separator or a closing bracket"
  | .lineEnd => "expected the end of the line"
  | .depth => "nested too deeply"
  | .repeatedKey => "repeated key"
  | .notTable => "a key refers to something that is no table"

/-- Floats and times are kept as they are written. -/
inductive Value
  | text (t : Text)
  | integer (n : Int)
  | float (literal : Text)
  | boolean (b : Bool)
  | time (literal : Text)
  | array (items : List Value)
  | table (entries : List (Text × Value))

abbrev Table := List (Text × Value)

/-- Tabs and all characters that are no control characters. -/
def isPlainChar (c : Char) : Bool :=
  c == '\t' || (0x20 ≤ c.toNat && c.toNat ≤ 0x7e) || 0x80 ≤ c.toNat

def isBlankChar (c : Char) : Bool := c == ' ' || c == '\t'

def skipBlanks (t : Text) : Text := t.dropWhile isBlankChar

end FencedCode.Toml
