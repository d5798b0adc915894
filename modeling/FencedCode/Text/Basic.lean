import FencedCode.Text.Ranges

/-! Texts as lists of characters, and the blank characters around them. -/
namespace FencedCode

/-- Documents, lines and sources are handled as the lists of their characters. -/
abbrev Text := List Char

/-- White space of all scripts. -/
def blankRanges : List (Nat × Nat) := [
  (0x9, 0xd), (0x20, 0x20), (0x85, 0x85), (0xa0, 0xa0), (0x1680, 0x1680), (0x2000, 0x200a),
  (0x2028, 0x2029), (0x202f, 0x202f), (0x205f, 0x205f), (0x3000, 0x3000)]

def isBlank (c : Char) : Bool := inRanges blankRanges c

/-- The two characters an indentation is made of. -/
def isPadding (c : Char) : Bool := c == ' ' || c == '\t'

namespace Text

def trimStart (t : Text) : Text := t.dropWhile isBlank

def trimEnd (t : Text) : Text := (t.reverse.dropWhile isBlank).reverse

def trim (t : Text) : Text := trimEnd (trimStart t)

/-- Drops the spaces and tabs at the end, and no other white space. -/
def trimPadding (t : Text) : Text := (t.reverse.dropWhile isPadding).reverse

def isAllBlank (t : Text) : Bool := t.all isBlank

def toString (t : Text) : String := String.ofList t

/-- The words between runs of white space. -/
def words (t : Text) : List Text :=
  (go [] t).filter (!·.isEmpty)
where
  go (word : Text) : Text → List Text
    | [] => [word.reverse]
    | c :: r => if isBlank c then word.reverse :: go [] r else go (c :: word) r

/-- The ASCII letters made lower case, all other characters as they are. -/
def lowerAscii (t : Text) : Text := t.map Char.toLower

end Text

end FencedCode
