import FencedCode.Format.Target

/-! What a formatter is asked for, and which requests make no sense. -/
namespace FencedCode

/-- The options of a formatter. The targets are kept oldest first and without repetitions. -/
structure FormatOptions where
  lineLength : Nat := 88
  targets : List Target := []
  stringNormalization : Bool := true
  deriving DecidableEq

inductive OptionsError
  | zeroLineLength
  | mixedTargets (targets : List Target)
  deriving DecidableEq

def OptionsError.reason : OptionsError → String
  | .zeroLineLength => "line length must be greater than zero"
  | .mixedTargets targets =>
    let names := ", ".intercalate (targets.map Target.name)
    s!"cannot mix Python 2 and Python 3 targets ({names})"

def OptionsError.message (e : OptionsError) : String :=
  match e with
  | .zeroLineLength => s!"Configuration error: {e.reason}"
  | .mixedTargets _ => s!"Incompatible target versions: {e.reason}"

namespace FormatOptions

/-- A line has room for at least one character, and no code runs on both Python 2 and 3. -/
def validate (o : FormatOptions) : Except OptionsError Unit :=
  if o.lineLength = 0 then .error .zeroLineLength
  else if o.targets.any Target.isPython2 && o.targets.any (!·.isPython2) then
    .error (.mixedTargets o.targets)
  else .ok ()

end FormatOptions

/-- Why a formatter gave no result. Lines and columns count from one within the source. -/
inductive FormatError
  | unparsable (line column : Nat) (reason : String)
  | failed (reason : String)
  deriving DecidableEq

namespace FormatError

def message : FormatError → String
  | .unparsable line column reason => s!"cannot parse {line}:{column}: {reason}"
  | .failed reason => s!"formatter failed: {reason}"

end FormatError

end FencedCode
