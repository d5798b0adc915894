import FencedCode.Settings.Discovery

/-! Formatting of files in place. -/
namespace FencedCode

structure UpdateOptions where
  run : RunOptions := {}
  checkOnly : Bool := false
  deriving DecidableEq

/-- The files that were changed, or would be, and how many errors there were. -/
structure UpdateReport where
  changed : List Path := []
  errors : Nat := 0
  deriving DecidableEq

namespace UpdateReport

/-- A changed file is a failure, and so are errors unless they are to be skipped. -/
def exitFailure (r : UpdateReport) (skipErrors : Bool) : Bool :=
  !r.changed.isEmpty || (0 < r.errors && !skipErrors)

def addError (r : UpdateReport) : UpdateReport := { r with errors := r.errors + 1 }

def addChanged (r : UpdateReport) (path : Path) : UpdateReport :=
  { r with changed := r.changed ++ [path] }

end UpdateReport

/-- What an update works on: the files, the console, and the state of the formatter. -/
structure Workspace (σ : Type) where
  tree : Tree
  console : Console
  formatter : σ

/-- A step of an update. What it has done stays done when it fails. -/
abbrev UpdateM (σ α : Type) := ExceptT Failure (StateM (Workspace σ)) α

namespace UpdateM

variable {σ : Type}

/-- Writes a line to the output. -/
def announce (line : String) : UpdateM σ Unit := do
  let w ← get
  let (done, out) := w.console.out.writeLine line
  set { w with console := { w.console with out } }
  if done then pure () else throw .output

/-- Writes a line to the error output. -/
def complain (line : String) : UpdateM σ Unit := do
  let w ← get
  let (done, err) := w.console.err.writeLine line
  set { w with console := { w.console with err } }
  if done then pure () else throw .output

def log (level : Level) (message : String) : UpdateM σ Unit :=
  modify fun w => { w with console := w.console.log level message }

/-- Formats a text and keeps the log of it. -/
def format (f : Formatter σ) (options : RunOptions) (text : Text) : UpdateM σ RunResult := do
  let w ← get
  let (result, formatter) := formatDocument f options text w.formatter
  set { w with formatter }
  match result with
  | .error e => throw (.options e)
  | .ok r =>
    (r.events.filterMap Event.message?).forM (log .debug)
    pure r

/-- Replaces the text of a file, and says why if that cannot be done. -/
def save (path : Path) (text : Text) : UpdateM σ (Option SystemError) := do
  let w ← get
  match w.tree.write path text.utf8 with
  | .error e => pure (some e)
  | .ok tree =>
    set { w with tree }
    pure none

end UpdateM

open UpdateM

variable {σ : Type}

def reportErrors (path : Path) (errors : List BlockError) (r : UpdateReport) :
    UpdateM σ UpdateReport :=
  errors.foldlM (fun r e => do
    complain (e.withFilename path).message
    pure r.addError) r

/-- Puts a new text in place of the old one, or says that it would. -/
def replaceText (checkOnly : Bool) (path : Path) (text : Text) (r : UpdateReport) :
    UpdateM σ UpdateReport := do
  if checkOnly then
    announce s!"{path.toString}: Would rewrite"
    pure (r.addChanged path)
  else
    match ← save path text with
    | some e =>
      log .warn s!"Could not rewrite {path.toString}: {e.message}"
      complain s!"{path.toString}: cannot write file: {e.message}"
      pure r.addError
    | none =>
      log .info s!"Rewrote {path.toString}"
      announce s!"{path.toString}: Rewriting..."
      pure (r.addChanged path)

/-- Formats one file. One that cannot be read or written is an error and does not stop the
others. -/
def updateFile (f : Formatter σ) (options : UpdateOptions) (path : Path) (r : UpdateReport) :
    UpdateM σ UpdateReport := do
  match (← get).tree.readText path with
  | .error e =>
    log .warn s!"Skipping {path.toString}: {e.message}"
    complain s!"{path.toString}: cannot read file: {e.message}"
    pure r.addError
  | .ok text =>
    let result ← format f options.run text
    log .debug
      s!"{path.toString}: {result.blocksSeen} blocks, {result.blocksFormatted} formatted"
    let r ← reportErrors path result.errors r
    if result.modified then replaceText options.checkOnly path result.text r else pure r

/-- Formats files one after the other. Options that make no sense stop it before the first. -/
def updateFiles (f : Formatter σ) (options : UpdateOptions) (paths : List Path) :
    UpdateM σ UpdateReport := do
  match options.run.format.validate with
  | .error e => throw (.options e)
  | .ok () =>
    let r ← paths.foldlM (fun r path => updateFile f options path r) {}
    log .debug s!"{paths.length} files, {r.changed.length} rewritten, {r.errors} errors"
    pure r

end FencedCode
