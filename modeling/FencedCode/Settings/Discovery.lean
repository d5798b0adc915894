import FencedCode.Console
import FencedCode.Files.Path
import FencedCode.Files.Tree
import FencedCode.Settings.Table

/-! Settings files, and where they are looked for. -/
namespace FencedCode

/-- Why a run came to nothing. -/
inductive Failure
  | output
  | options (e : OptionsError)
  | unreadable (path : Path) (e : SystemError)
  | settings (e : SettingsError)
  deriving DecidableEq

def Failure.message : Failure → String
  | .output => "I/O error: failed to write whole buffer"
  | .options e => e.message
  | .unreadable path e => s!"Configuration error: cannot read {path.toString}: {e.message}"
  | .settings e => s!"TOML parse error: {e.message}"

namespace Settings

/-- The names that a settings file may have; the first one counts more. -/
def fileNames : List Text := ["blacken-docs.toml".toList, ".blacken-docs.toml".toList]

def candidates (directory : Path) : List Path := fileNames.map directory.join

/-- The nearest settings file, in a directory or one of those that its path leads through. -/
def find? (tree : Tree) (directory : Path) : Option Path :=
  (directory.ancestors.flatMap candidates).find? tree.isFile

/-- Reads a settings file. The keys that it does not have keep their defaults. -/
def ofFile (tree : Tree) (path : Path) : Except Failure Settings :=
  match tree.readText path with
  | .error e => .error (.unreadable path e)
  | .ok t =>
    match Overrides.ofToml t with
    | .error e => .error (.settings e)
    | .ok o => .ok (o.apply {})

/-- Reads the nearest settings file. -/
def ofDirectory (tree : Tree) (directory : Path) : Except Failure Settings :=
  match find? tree directory with
  | none => .ok {}
  | some path => ofFile tree path

end Settings

end FencedCode
