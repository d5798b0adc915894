import FencedCode.CommandLine.Arguments
import FencedCode.Update

/-! The command line: from arguments to an exit status. -/
namespace FencedCode.CommandLine

def programName : String := "blacken-docs-jb"

def versionText : String := s!"{programName} 0.1.0"

def helpText : String :=
  "Run black on Python code blocks in Markdown and MyST documents\n\n" ++
    s!"Usage: {programName} [OPTIONS] [FILE]..."

/-- What a call leaves behind. -/
structure Outcome where
  status : Nat
  console : Console
  tree : Tree

/-- Reads the settings of a call. The log mentions the file that they come from. -/
def loadSettings (i : Invocation) (tree : Tree) (directory : Path) (console : Console) :
    Except Failure Settings × Console :=
  match i.settingsFile.or (Settings.find? tree directory) with
  | none => (.ok (i.overrides.apply {}), console)
  | some path =>
    match Settings.ofFile tree path with
    | .error e => (.error e, console)
    | .ok base =>
      (.ok (i.overrides.apply base), console.log .debug s!"Read configuration from {path.toString}")

def failed (tree : Tree) (console : Console) (e : Failure) : Outcome :=
  ⟨1, { console with err := (console.err.writeLine s!"Error: {e.message}").2 }, tree⟩

/-- Formats the files of a call. -/
def update (host : Host) (i : Invocation) (tree : Tree) (directory : Path) : Outcome :=
  let console : Console := { threshold := some (if i.verbose then .debug else .warn) }
  match loadSettings i tree directory console with
  | (.error e, console) => failed tree console e
  | (.ok settings, console) =>
    let options : UpdateOptions := ⟨settings.runOptions, i.checkOnly⟩
    let (result, w) :=
      (updateFiles (settings.command.formatter host) options i.files).run ⟨tree, console, ()⟩
    match result with
    | .error e => failed w.tree w.console e
    | .ok report =>
      ⟨if report.exitFailure settings.skipErrors then 1 else 0, w.console, w.tree⟩

/-- Runs the program in a directory, whose path is given as the system writes it. -/
def run (host : Host) (tree : Tree) (directory : Path) (arguments : List Text) : Outcome :=
  match read arguments with
  | .ok i => update host i tree directory
  | .error (.usage e) =>
    ⟨2, { err := (Sink.writeLine {} s!"error: {e.message}").2 }, tree⟩
  | .error (.notice .version) => ⟨0, { out := (Sink.writeLine {} versionText).2 }, tree⟩
  | .error (.notice .help) => ⟨0, { out := (Sink.writeLine {} helpText).2 }, tree⟩

end FencedCode.CommandLine
