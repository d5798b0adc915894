import FencedCode.Text.Numeral

/-! Places in a document, as they are reported to people. -/
namespace FencedCode

/-- A path as it was written. -/
abbrev Path := Text

/-- Lines and columns count from one. -/
structure Location where
  filename : Option Path := none
  line : Nat := 1
  column : Nat := 1
  deriving DecidableEq

namespace Location

def ofLine (line : Nat) : Location := ⟨none, line, 1⟩

/-- The start of the line with an index counted from zero. -/
def ofIndex (index : Nat) : Location := ofLine (index + 1)

def withColumn (l : Location) (column : Nat) : Location := { l with column }

def withFilename (l : Location) (path : Path) : Location := { l with filename := some path }

/-- The place some lines further down. The number of its line is kept in a word. -/
def down (l : Location) (lines : Nat) : Location := { l with line := wrapWord (l.line + lines) }

def message (l : Location) : String :=
  match l.filename with
  | some path => s!"{path.toString}:{l.line}"
  | none => s!"line {l.line}"

end Location

end FencedCode
