import FencedCode.Document.Segment

/-! Formatting of whole documents. Everything outside the bodies of blocks in the chosen languages
stays as it is, and so does every body in which a step fails. -/
namespace FencedCode

def defaultLanguages : List Text :=
  ["python", "py", "python3", "py3", "ipython", "ipython3"].map String.toList

structure RunOptions where
  format : FormatOptions := {}
  languages : List Text := defaultLanguages
  skipErrors : Bool := false
  deriving DecidableEq

structure RunResult where
  text : Text
  errors : List BlockError
  modified : Bool
  blocksSeen : Nat
  blocksFormatted : Nat
  events : List Event
  deriving DecidableEq

namespace RunResult

/-- The sources that the formatter was called with. -/
def calls (r : RunResult) : List Text := r.events.filterMap Event.call?

/-- A changed document is a failure, and so are errors unless they are to be skipped. -/
def exitFailure (r : RunResult) (skipErrors : Bool) : Bool :=
  r.modified || (!r.errors.isEmpty && !skipErrors)

end RunResult

def RunOptions.isFailure (o : RunOptions) (r : RunResult) : Bool := r.exitFailure o.skipErrors

/-- What becomes of one block: the text of its body, the error if there is one, and whether it was
in a chosen language. -/
structure Outcome where
  block : Block
  body : Text
  error : Option BlockError
  matching : Bool
  events : List Event
  deriving DecidableEq

namespace Outcome

variable {σ : Type}

def ofBlock (rule : HeaderRule) (f : Formatter σ) (options : RunOptions) (lines : List Line)
    (b : Block) (s : σ) : Outcome × σ :=
  let old := joinLines (b.body lines)
  if b.isWrittenIn options.languages then
    let a := b.format rule f options.format lines s
    match a.result with
    | .ok new =>
      let tagged := new.tags.toList.map (Event.tagged (b.fenceLine + 1))
      (⟨b, new.body, none, true, a.events ++ tagged⟩, a.state)
    | .error e =>
      (⟨b, old, some e, true, a.events ++ [.untouched (b.fenceLine + 1) e.fault]⟩, a.state)
  else (⟨b, old, none, false, [.skipped b.language (b.fenceLine + 1)]⟩, s)

def ofBlocks (rule : HeaderRule) (f : Formatter σ) (options : RunOptions) (lines : List Line) :
    List Block → σ → List Outcome × σ
  | [], s => ([], s)
  | b :: bs, s =>
    let (o, s) := ofBlock rule f options lines b s
    let (os, s) := ofBlocks rule f options lines bs s
    (o :: os, s)

end Outcome

/-- Puts new bodies into a document. `i` is the index of the first of the remaining lines. -/
def assemble (i : Nat) (lines : List Line) : List Outcome → Text
  | [] => joinLines lines
  | o :: os =>
    joinLines (lines.take (o.block.startLine - i)) ++ o.body ++
      assemble o.block.endLine (lines.drop (o.block.endLine - i)) os

/-- Formats the blocks of a document under a rule for option headers. -/
def formatWith {σ : Type} (rule : HeaderRule) (f : Formatter σ) (options : RunOptions) (text : Text)
    (s : σ) : Except OptionsError RunResult × σ :=
  match options.format.validate with
  | .error e => (.error e, s)
  | .ok () =>
    let lines := text.splitLines
    let findings := scan lines
    let (outcomes, s) :=
      Outcome.ofBlocks rule f options lines (findings.filterMap Finding.block?) s
    let new := assemble 0 lines outcomes
    (.ok {
      text := new
      errors := outcomes.filterMap Outcome.error
      modified := new != text
      blocksSeen := outcomes.length
      blocksFormatted := (outcomes.filter Outcome.matching).length
      events := findings.filterMap Event.ofFinding? ++ outcomes.flatMap Outcome.events }, s)

/-- Formats the blocks of a document. -/
def formatDocument {σ : Type} (f : Formatter σ) (options : RunOptions) (text : Text) (s : σ) :
    Except OptionsError RunResult × σ :=
  formatWith Header.rule f options text s

end FencedCode
