import FencedCode.Document.Basic
import FencedCode.Format.Command

/-! The settings of a run, and changes to them. -/
namespace FencedCode

structure Settings where
  lineLength : Nat := 88
  targets : List Target := []
  skipStringNormalization : Bool := false
  skipErrors : Bool := false
  languages : List Text := defaultLanguages
  formatterCommand : List Text := ["black".toList]
  deriving DecidableEq

namespace Settings

def formatOptions (s : Settings) : FormatOptions where
  lineLength := s.lineLength
  targets := Target.sorted s.targets
  stringNormalization := !s.skipStringNormalization

def runOptions (s : Settings) : RunOptions where
  format := s.formatOptions
  languages := s.languages
  skipErrors := s.skipErrors

def command (s : Settings) : FormatCommand := ⟨s.formatterCommand⟩

end Settings

/-- Some settings, which take the place of others. -/
structure Overrides where
  lineLength : Option Nat := none
  targets : Option (List Target) := none
  skipStringNormalization : Option Bool := none
  skipErrors : Option Bool := none
  languages : Option (List Text) := none
  formatterCommand : Option (List Text) := none
  deriving DecidableEq

/-- Lists are replaced as a whole. -/
def Overrides.apply (o : Overrides) (base : Settings) : Settings where
  lineLength := o.lineLength.getD base.lineLength
  targets := o.targets.getD base.targets
  skipStringNormalization := o.skipStringNormalization.getD base.skipStringNormalization
  skipErrors := o.skipErrors.getD base.skipErrors
  languages := o.languages.getD base.languages
  formatterCommand := o.formatterCommand.getD base.formatterCommand

end FencedCode
