import FencedCode.CommandLine.Basic
import FencedCode.Program.Tidy

/-! The command line program. It takes a picture of the files that a call may touch, works on the
picture, and writes back what has changed. -/
namespace FencedCode

/-- The place of a path, as its text says. -/
def placeOf (directory : Place) (path : Path) : Place :=
  let start := if path.head? = some '/' then [] else directory
  (Tree.names path).foldl (fun place name =>
    if name.isEmpty || name == ['.'] then place
    else if name == ['.', '.'] then place.dropLast
    else place ++ [name]) start

/-- The files that a call may read. -/
def touchedPaths (directory : Path) (arguments : List Text) : List Path :=
  match CommandLine.read arguments with
  | .error _ => []
  | .ok i =>
    i.files ++ (match i.settingsFile with
      | some path => [path]
      | none => directory.ancestors.flatMap Settings.candidates)

/-- The programs that every call can use as a formatter. -/
def builtinHost : Host where
  programs := [("builtin-tidy".toList, Tidy.program)]

/-- What the system has at a path. -/
def observe (path : String) : IO (Option Entry) := do
  try
    let content ← IO.FS.readBinFile path
    let writable ← try
        IO.FS.withFile path .append fun _ => pure ()
        pure true
      catch _ => pure false
    return some (.file content.toList ⟨true, writable⟩)
  catch e =>
    match e with
    | .noFileOrDirectory .. => return none
    | .inappropriateType .. => return some .directory
    | .permissionDenied .. => return some (.file [] ⟨false, false⟩)
    | _ => return none

def emit (stream : IO.FS.Stream) (sink : Sink) : IO Unit := do
  stream.write (ByteArray.mk sink.written.toArray)
  stream.flush

/-- Runs the program on the files of the system. -/
def runProgram (arguments : List String) : IO UInt32 := do
  let directory := (← IO.currentDir).toString.toList
  let words := arguments.map String.toList
  let mut old : Tree := { directory := placeOf [] directory }
  old := old.put old.directory .directory
  for path in touchedPaths directory words do
    if let some e ← observe (String.ofList path) then
      old := old.put (placeOf old.directory path) e
  let o := CommandLine.run builtinHost old directory words
  for (place, e) in o.tree.entries do
    if old.get? place ≠ some e then
      if let .file content _ := e then
        let path := String.ofList ('/' :: List.intercalate ['/'] place)
        IO.FS.writeBinFile path (ByteArray.mk content.toArray)
  emit (← IO.getStdout) o.console.out
  emit (← IO.getStderr) o.console.err
  return UInt32.ofNat o.status

end FencedCode

def main (arguments : List String) : IO UInt32 := FencedCode.runProgram arguments
