import FencedCode.Format.Formatter
import FencedCode.Format.Report
import FencedCode.Program.Basic

/-! Formatters that are programs of their own. -/
namespace FencedCode

/-- A program and the first of its arguments. -/
structure FormatCommand where
  words : List Text := ["black".toList]
  deriving DecidableEq

namespace FormatCommand

/-- All arguments of a call. The source comes from the standard input. -/
def arguments (c : FormatCommand) (o : FormatOptions) : List Text :=
  let targets := o.targets.flatMap fun v => ["--target-version".toList, v.name.toList]
  let quotes := if o.stringNormalization then [] else ["--skip-string-normalization".toList]
  c.words.drop 1 ++
    ["--quiet".toList, "--line-length".toList, (toString o.lineLength).toList] ++
    targets ++ quotes ++ [['-']]

/-- What a program that failed has to say. -/
def complaint (r : Completion) : String :=
  s!"{r.status.message}: {(Utf8.decodeLossy r.err).trim.toString}"

/-- What a program's end means for the source. -/
def outcome (name : Text) (r : Completion) : Except FormatError Text :=
  if !r.tookInput then
    .error (.failed s!"failed to write to '{name.toString}': {SystemError.brokenPipe.message}")
  else if r.status.isSuccess then
    match Utf8.decode r.out with
    | .ok t => .ok t
    | .error e => .error (.failed s!"non UTF-8 output: {e.message}")
  else
    match parseError? (Utf8.decodeLossy r.err) with
    | some e => .error e
    | none => .error (.failed s!"'{name.toString}' exited with {complaint r}")

def call (h : Host) (c : FormatCommand) (source : Text) (o : FormatOptions) :
    Except FormatError Text :=
  match c.words with
  | [] => .error (.failed "empty formatter command")
  | name :: _ =>
    match h.launch name (c.arguments o) source.utf8 with
    | .error e => .error (.failed s!"failed to spawn '{name.toString}': {e.message}")
    | .ok r => outcome name r

/-- The log mentions every program that fails. -/
def remarks (h : Host) (c : FormatCommand) (source : Text) (o : FormatOptions) : List String :=
  match c.words with
  | [] => []
  | name :: _ =>
    match h.launch name (c.arguments o) source.utf8 with
    | .error _ => []
    | .ok r =>
      if r.tookInput && !r.status.isSuccess then [s!"{name.toString} exited with {complaint r}"]
      else []

/-- The formatter that runs a command on a host. -/
def formatter (h : Host) (c : FormatCommand) : Formatter Unit where
  format source o s := (c.call h source o, s)
  remarks source o _ := c.remarks h source o

end FormatCommand

end FencedCode
