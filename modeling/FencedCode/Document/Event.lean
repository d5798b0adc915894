import FencedCode.Document.Error

/-! What happens while a document is formatted, step by step. -/
namespace FencedCode

inductive Level
  | debug
  | info
  | warn
  deriving DecidableEq

/-- Lines count from one. -/
inductive Event
  | unclosedFence (line : Nat)
  | skipped (language : Text) (line : Nat)
  | called (source : Text)
  | remarked (text : String)
  | formatted (line length : Nat) (changed : Bool)
  | tagged (line : Nat) (tags : List Text)
  | untouched (line : Nat) (fault : BlockFault)
  deriving DecidableEq

namespace Event

/-- What the log says of an event; calls go without saying. -/
def message? : Event → Option String
  | .unclosedFence line => some s!"Unclosed fence at line {line}, treating it as text"
  | .skipped language line => some s!"Skipping {language.quoted} block at line {line}"
  | .called _ => none
  | .remarked text => some text
  | .formatted line length changed =>
    let verb := if changed then "reformatted" else "unchanged"
    some s!"Block at line {line} ({length} lines): {verb}"
  | .tagged line tags => some s!"Cell at line {line} has tags {Text.quotedSet tags}"
  | .untouched line fault => some s!"Leaving block at line {line} untouched: {fault.message}"

/-- The source of a call. -/
def call? : Event → Option Text
  | .called source => some source
  | _ => none

/-- The event of a scan that the log mentions. -/
def ofFinding? : Finding → Option Event
  | .unclosed line _ => some (.unclosedFence (line + 1))
  | .block _ => none

end Event

end FencedCode
