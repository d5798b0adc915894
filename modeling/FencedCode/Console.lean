import FencedCode.Document.Event
import FencedCode.Text.Utf8

/-! Where a program writes: its output, its error output and the log lines among the latter. -/
namespace FencedCode

/-- A stream that takes bytes as long as it has room. -/
structure Sink where
  room : Option Nat := none
  written : Bytes := []
  deriving DecidableEq

namespace Sink

/-- Writes bytes, and says whether all of them were taken. A sink takes as many as it can. -/
def write (s : Sink) (bytes : Bytes) : Bool × Sink :=
  match s.room with
  | none => (true, { s with written := s.written ++ bytes })
  | some n =>
    if bytes.length ≤ n then (true, ⟨some (n - bytes.length), s.written ++ bytes⟩)
    else (false, ⟨some 0, s.written ++ bytes.take n⟩)

def writeLine (s : Sink) (line : String) : Bool × Sink :=
  s.write (Text.utf8 (line.toList ++ ['\n']))

end Sink

namespace Level

def rank : Level → Nat
  | .debug => 0
  | .info => 1
  | .warn => 2

/-- Five characters wide. -/
def label : Level → String
  | .debug => "DEBUG"
  | .info => " INFO"
  | .warn => " WARN"

end Level

/-- The log shows a message with its control characters in a form that no terminal obeys. -/
def logChar (c : Char) : Text :=
  let n := c.toNat
  let digits := Nat.toDigits 16 n
  if n = 0x1b ∨ n = 0x07 ∨ n = 0x08 ∨ n = 0x0c ∨ n = 0x7f then
    ['\\', 'x'] ++ List.replicate (2 - digits.length) '0' ++ digits
  else if 0x80 ≤ n ∧ n ≤ 0x9f then ['\\', 'u', '\x7b'] ++ digits ++ ['\x7d']
  else [c]

/-- The log has messages from a level on; without one there is no log. -/
structure Console where
  out : Sink := {}
  err : Sink := {}
  threshold : Option Level := none
  deriving DecidableEq

namespace Console

/-- Adds a message to the log. -/
def log (c : Console) (level : Level) (message : String) : Console :=
  match c.threshold with
  | none => c
  | some threshold =>
    if threshold.rank ≤ level.rank then
      let shown := String.ofList (message.toList.flatMap logChar)
      { c with err := (c.err.writeLine s!"{level.label} {shown}").2 }
    else c

end Console

end FencedCode
