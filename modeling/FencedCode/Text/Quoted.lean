import FencedCode.Text.Basic
import FencedCode.Text.Visible

/-! Texts shown in double quotes, with what cannot be seen written as an escape. -/
namespace FencedCode

def escapeChar (c : Char) : Text :=
  if c = '"' then ['\\', '"']
  else if c = '\\' then ['\\', '\\']
  else if c = '\n' then ['\\', 'n']
  else if c = '\r' then ['\\', 'r']
  else if c = '\t' then ['\\', 't']
  else if c = '\x00' then ['\\', '0']
  else if isVisible c then [c]
  else ['\\', 'u', '\x7b'] ++ Nat.toDigits 16 c.toNat ++ ['\x7d']

/-- The text in double quotes. -/
def Text.quoted (t : Text) : String :=
  String.ofList ('"' :: t.flatMap escapeChar ++ ['"'])

/-- A set of texts, quoted and in braces. -/
def Text.quotedSet (ts : List Text) : String :=
  "\x7b" ++ ", ".intercalate (ts.map Text.quoted) ++ "\x7d"

end FencedCode
