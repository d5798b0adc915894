import FencedCode.Settings.Basic
import FencedCode.Toml.Document
import FencedCode.Toml.Writer

/-! Settings as TOML tables, read and written. -/
namespace FencedCode

inductive SettingsError
  | malformed (problem : Toml.Problem)
  | unknownKey (key : Text)
  | wrongType (key : String)
  deriving DecidableEq

def SettingsError.message : SettingsError → String
  | .malformed problem => problem.message
  | .unknownKey key => s!"unknown field {key.quoted}"
  | .wrongType key => s!"invalid value for {key}"

namespace Settings

/-- The keys of settings, in the order in which they are written. -/
def keys : List String :=
  ["line_length", "target_versions", "skip_string_normalization", "skip_errors", "languages",
    "formatter_command"]

/-- Numbers of at most 64 bits. -/
def nat? : Toml.Value → Option Nat
  | .integer n => if 0 ≤ n ∧ fitsWord n.toNat then some n.toNat else none
  | _ => none

def bool? : Toml.Value → Option Bool
  | .boolean b => some b
  | _ => none

def text? : Toml.Value → Option Text
  | .text t => some t
  | _ => none

def isEmptyCollection : Toml.Value → Bool
  | .array items => items.isEmpty
  | .table entries => entries.isEmpty
  | _ => false

/-- A version is named by a text, or by the only key of a table, with nothing under it. -/
def target? : Toml.Value → Option Target
  | .text t => Target.ofName? t
  | .table [(key, v)] => if isEmptyCollection v then Target.ofName? key else none
  | _ => none

def list? {α : Type} (item? : Toml.Value → Option α) : Toml.Value → Option (List α)
  | .array items => items.mapM item?
  | _ => none

/-- Reads what a table has under a key, if it has anything. -/
def field {α : Type} (table : Toml.Table) (key : String) (read? : Toml.Value → Option α) :
    Except SettingsError (Option α) :=
  match table.lookup key.toList with
  | none => .ok none
  | some v =>
    match read? v with
    | some a => .ok (some a)
    | none => .error (.wrongType key)

/-- Reads settings. Keys that are missing keep their defaults, and others do not matter. -/
def ofTable (table : Toml.Table) : Except SettingsError Settings := do
  let base : Settings := {}
  let lineLength ← field table "line_length" nat?
  let targets ← field table "target_versions" (list? target?)
  let skipStringNormalization ← field table "skip_string_normalization" bool?
  let skipErrors ← field table "skip_errors" bool?
  let languages ← field table "languages" (list? text?)
  let formatterCommand ← field table "formatter_command" (list? text?)
  .ok {
    lineLength := lineLength.getD base.lineLength
    targets := targets.getD base.targets
    skipStringNormalization := skipStringNormalization.getD base.skipStringNormalization
    skipErrors := skipErrors.getD base.skipErrors
    languages := languages.getD base.languages
    formatterCommand := formatterCommand.getD base.formatterCommand }

end Settings

namespace Overrides

/-- What a table has under the keys of settings, whatever else it has. -/
def ofFields (table : Toml.Table) : Except SettingsError Overrides := do
  let lineLength ← Settings.field table "line_length" Settings.nat?
  let targets ← Settings.field table "target_versions" (Settings.list? Settings.target?)
  let skipStringNormalization ← Settings.field table "skip_string_normalization" Settings.bool?
  let skipErrors ← Settings.field table "skip_errors" Settings.bool?
  let languages ← Settings.field table "languages" (Settings.list? Settings.text?)
  let formatterCommand ← Settings.field table "formatter_command" (Settings.list? Settings.text?)
  .ok { lineLength, targets, skipStringNormalization, skipErrors, languages, formatterCommand }

/-- Reads overrides. Every key has to be one of those of settings. -/
def ofTable (table : Toml.Table) : Except SettingsError Overrides :=
  match table.find? fun e => !Settings.keys.any (·.toList == e.1) with
  | some (key, _) => .error (.unknownKey key)
  | none => ofFields table

/-- The table of overrides, with the keys in their order. -/
def toTable (o : Overrides) : Toml.Table :=
  let entry (key : String) (v : Option Toml.Value) : Toml.Table :=
    v.toList.map (key.toList, ·)
  entry "line_length" (o.lineLength.map fun n => .integer n) ++
    entry "target_versions"
      (o.targets.map fun vs => .array (vs.map fun v => .text v.name.toList)) ++
    entry "skip_string_normalization" (o.skipStringNormalization.map .boolean) ++
    entry "skip_errors" (o.skipErrors.map .boolean) ++
    entry "languages" (o.languages.map fun ts => .array (ts.map .text)) ++
    entry "formatter_command" (o.formatterCommand.map fun ts => .array (ts.map .text))

def ofToml (t : Text) : Except SettingsError Overrides :=
  match Toml.parse t with
  | .error e => .error (.malformed e)
  | .ok table => ofTable table

def toToml (o : Overrides) : Except Toml.WriteError Text := Toml.write o.toTable

end Overrides

namespace Settings

def toOverrides (s : Settings) : Overrides where
  lineLength := some s.lineLength
  targets := some s.targets
  skipStringNormalization := some s.skipStringNormalization
  skipErrors := some s.skipErrors
  languages := some s.languages
  formatterCommand := some s.formatterCommand

def ofToml (t : Text) : Except SettingsError Settings :=
  match Toml.parse t with
  | .error e => .error (.malformed e)
  | .ok table => ofTable table

def toToml (s : Settings) : Except Toml.WriteError Text := s.toOverrides.toToml

end Settings

end FencedCode
