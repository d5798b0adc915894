import FencedCode.Fence
import FencedCode.Location

/-! The fenced blocks of a document, and the scan that finds them. -/
namespace FencedCode

/-- A fenced block: the indices of its two fence lines, its opener, and the space after the closing
fence. The body is what lies strictly between. -/
structure Block where
  fenceLine : Nat
  endLine : Nat
  opener : Opener
  trailing : Text
  deriving DecidableEq

namespace Block

def startLine (b : Block) : Nat := b.fenceLine + 1

def bodyLength (b : Block) : Nat := b.endLine - b.startLine

def indent (b : Block) : Text := b.opener.indent

def kind (b : Block) : BlockKind := b.opener.kind

def language (b : Block) : Text := b.opener.language

def location (b : Block) : Location := .ofIndex b.fenceLine

def isWrittenIn (b : Block) (languages : List Text) : Bool := languages.elem b.language

/-- The lines of the body in the document the block was found in. -/
def body (b : Block) (lines : List Line) : List Line :=
  (lines.drop b.startLine).take b.bodyLength

end Block

/-- The shapes of fences that no later line closes: for each indentation and marker the shortest
one met. -/
abbrev Unclosed := List ((Text × Char) × Nat)

namespace Unclosed

def shortest? (u : Unclosed) (o : Opener) : Option Nat := u.lookup (o.indent, o.fence.marker)

/-- A fence cannot be closed if a shorter one of its shape could not. -/
def covers (u : Unclosed) (o : Opener) : Bool :=
  match u.shortest? o with
  | some n => decide (n ≤ o.fence.length)
  | none => false

def record (u : Unclosed) (o : Opener) : Unclosed :=
  let length := match u.shortest? o with
    | some n => min n o.fence.length
    | none => o.fence.length
  ((o.indent, o.fence.marker), length) :: u

end Unclosed

/-- What a scan meets: a block, or a fence that ran off the end of the document. -/
inductive Finding
  | block (b : Block)
  | unclosed (line : Nat) (o : Opener)
  deriving DecidableEq

namespace Finding

def block? : Finding → Option Block
  | .block b => some b
  | .unclosed _ _ => none

end Finding

/-- The number of lines before the first one that closes the opener, and the space after its
fence. -/
def Opener.findClose? (o : Opener) : List Line → Option (Nat × Text)
  | [] => none
  | l :: ls =>
    match o.closes? l.content with
    | some trailing => some (0, trailing)
    | none => (o.findClose? ls).map fun (n, trailing) => (n + 1, trailing)

/-- Scans the lines from index `i` on. An opener that no line closes is text, and the scan goes on
right after it; `known` spares a second search to the end for a fence of the same shape. -/
def scanFrom (known : Unclosed) (i : Nat) : List Line → List Finding
  | [] => []
  | l :: ls =>
    match Opener.ofContent? l.content with
    | none => scanFrom known (i + 1) ls
    | some o =>
      if known.covers o then scanFrom known (i + 1) ls
      else match o.findClose? ls with
        | none => .unclosed i o :: scanFrom (known.record o) (i + 1) ls
        | some (n, trailing) =>
          .block ⟨i, i + 1 + n, o, trailing⟩ :: scanFrom known (i + 2 + n) (ls.drop (n + 1))
termination_by ls => ls.length
decreasing_by all_goals simp [List.length_drop]; try omega

def scan (ls : List Line) : List Finding := scanFrom [] 0 ls

/-- The blocks of a document in order. -/
def scanBlocks (ls : List Line) : List Block := (scan ls).filterMap Finding.block?

def Text.blocks (t : Text) : List Block := scanBlocks t.splitLines

end FencedCode
