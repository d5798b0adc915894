import FencedCode.Text.Basic

/-! Lines with their endings, and the removal of a block's indentation. -/
namespace FencedCode

inductive Ending
  | missing
  | lf
  | crlf
  deriving DecidableEq

def Ending.text : Ending → Text
  | .missing => []
  | .lf => ['\n']
  | .crlf => ['\r', '\n']

structure Line where
  content : Text
  ending : Ending
  deriving DecidableEq

namespace Line

/-- Splits the ending off a text that holds one line. A carriage return belongs to the ending only
directly before a line feed. -/
def ofText (t : Text) : Line :=
  match t.reverse with
  | '\n' :: '\r' :: r => ⟨r.reverse, .crlf⟩
  | '\n' :: r => ⟨r.reverse, .lf⟩
  | _ => ⟨t, .missing⟩

def text (l : Line) : Text := l.content ++ l.ending.text

end Line

namespace Text

/-- Cuts a text after every line feed; `line` holds the current piece in reverse. -/
def cutLinesFrom (line : Text) : Text → List Text
  | [] => if line.isEmpty then [] else [line.reverse]
  | c :: r =>
    if c = '\n' then (c :: line).reverse :: cutLinesFrom [] r else cutLinesFrom (c :: line) r

def cutLines (t : Text) : List Text := cutLinesFrom [] t

def splitLines (t : Text) : List Line := (cutLines t).map Line.ofText

/-- The contents of the lines, without their endings. -/
def lines (t : Text) : List Text := (splitLines t).map Line.content

/-- Drops at most `n` leading spaces and tabs. -/
def dropPadding : Nat → Text → Text
  | 0, t => t
  | _ + 1, [] => []
  | n + 1, c :: r => if isPadding c then dropPadding n r else c :: r

/-- Takes an indentation off a line: the indentation itself where the line starts with it, else as
much space as the line has, up to its width. -/
def stripIndent (indent line : Text) : Text :=
  match indent.isPrefixOf? line with
  | some rest => rest
  | none => dropPadding indent.length line

end Text

/-- The text that lines make up. -/
def joinLines (ls : List Line) : Text := ls.flatMap Line.text

end FencedCode
