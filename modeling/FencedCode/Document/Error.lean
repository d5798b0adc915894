import FencedCode.Body.Basic

/-! Errors of single blocks, with their place in the document. -/
namespace FencedCode

/-- The location is that of the opening fence; the position, where one is known, that of the code
which a formatter could not parse. -/
structure BlockError where
  location : Location
  position : Option Location
  fault : BlockFault
  deriving DecidableEq

namespace BlockError

def new (location : Location) (fault : BlockFault) : BlockError := ⟨location, none, fault⟩

def withPosition (e : BlockError) (position : Location) : BlockError :=
  { e with position := some position }

def withFilename (e : BlockError) (path : Path) : BlockError :=
  { e with
    location := e.location.withFilename path
    position := e.position.map (·.withFilename path) }

def message (e : BlockError) : String :=
  let place := match e.location.filename with
    | some path => s!"{path.toString}:{e.location.line}"
    | none => toString e.location.line
  let detail := match e.position with
    | some p => s!" (document line {p.line}, column {p.column})"
    | none => ""
  s!"{place}: code block parse error {e.fault.message}{detail}"

end BlockError

end FencedCode
