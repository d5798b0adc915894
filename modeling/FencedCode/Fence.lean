import FencedCode.Text.Line

/-! Fences: the runs of backticks or tildes that open and close a code block. -/
namespace FencedCode

inductive BlockKind
  | plain
  | cell
  deriving DecidableEq

structure Fence where
  marker : Char
  length : Nat
  deriving DecidableEq

namespace Fence

/-- A text closes a fence if it is a run of the marker, at least as long as the fence, and then
only spaces and tabs, which are returned. -/
def closes? (f : Fence) (t : Text) : Option Text :=
  let rest := t.dropWhile (· == f.marker)
  if f.length ≤ (t.takeWhile (· == f.marker)).length && rest.all isPadding then some rest else none

end Fence

/-- A line that opens a block: an indentation, a fence, and the info text after it. -/
structure Opener where
  indent : Text
  fence : Fence
  info : Text
  deriving DecidableEq

namespace Opener

/-- Reads an opener off a line's content. A fence has at least three markers, and the info text
after backticks holds no backtick. -/
def ofContent? (t : Text) : Option Opener :=
  let rest := t.dropWhile isPadding
  match rest with
  | [] => none
  | m :: _ =>
    let length := (rest.takeWhile (· == m)).length
    let info := rest.dropWhile (· == m)
    if (m == '\x60' || m == '~') && 3 ≤ length && !(m == '\x60' && info.elem '\x60') then
      some ⟨t.takeWhile isPadding, ⟨m, length⟩, info⟩
    else none

/-- The directive whose blocks are notebook cells. -/
def cellDirective : Text := "\x7bcode-cell\x7d".toList

/-- What follows the cell directive in the info text; the directive ends at a space, at a tab or
with the text. -/
def afterDirective? (o : Opener) : Option Text :=
  match cellDirective.isPrefixOf? (Text.trimStart o.info) with
  | some [] => some []
  | some (c :: r) => if isPadding c then some (c :: r) else none
  | none => none

def kind (o : Opener) : BlockKind :=
  if o.afterDirective?.isSome then .cell else .plain

def language (o : Opener) : Text :=
  Text.trim (o.afterDirective?.getD o.info)

/-- A line closes a block if it closes its fence at exactly the same indentation. -/
def closes? (o : Opener) (content : Text) : Option Text :=
  (o.indent.isPrefixOf? content).bind o.fence.closes?

end Opener

end FencedCode
