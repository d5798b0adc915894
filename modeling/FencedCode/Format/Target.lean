import FencedCode.Text.Basic

/-! The Python versions that formatted code has to run on. -/
namespace FencedCode

inductive Target
  | py27
  | py33
  | py34
  | py35
  | py36
  | py37
  | py38
  | py39
  | py310
  | py311
  | py312
  | py313
  deriving DecidableEq

namespace Target

/-- All versions, oldest first. -/
def all : List Target :=
  [py27, py33, py34, py35, py36, py37, py38, py39, py310, py311, py312, py313]

def name : Target → String
  | py27 => "py27"
  | py33 => "py33"
  | py34 => "py34"
  | py35 => "py35"
  | py36 => "py36"
  | py37 => "py37"
  | py38 => "py38"
  | py39 => "py39"
  | py310 => "py310"
  | py311 => "py311"
  | py312 => "py312"
  | py313 => "py313"

/-- The place of a version in the order of age. -/
def rank (v : Target) : Nat := all.idxOf v

def isPython2 (v : Target) : Bool := v == py27

/-- The version with exactly this name. -/
def ofName? (t : Text) : Option Target := all.find? fun v => v.name.toList == t

/-- The version that a person means by a text: the space around it and the case of its letters do
not matter. No letter outside ASCII has a lower case form that occurs in a name. -/
def read? (t : Text) : Option Target := ofName? t.trim.lowerAscii

/-- What is said of a name that no version has. -/
def unknown (t : Text) : String := s!"Unknown target version: {t.toString}"

/-- The distinct members of a list of versions, oldest first. -/
def sorted (vs : List Target) : List Target := all.filter vs.elem

end Target

end FencedCode
