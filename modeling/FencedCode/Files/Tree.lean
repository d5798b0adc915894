import FencedCode.Location
import FencedCode.SystemError
import FencedCode.Text.Utf8

/-! Trees of files and directories. -/
namespace FencedCode

structure Access where
  readable : Bool := true
  writable : Bool := true
  deriving DecidableEq

inductive Entry
  | file (content : Bytes) (access : Access)
  | directory
  deriving DecidableEq

/-- The names on the way from the root to a place. -/
abbrev Place := List Text

/-- A tree, with the working directory of those who use it. -/
structure Tree where
  entries : List (Place × Entry) := []
  directory : Place := []
  deriving DecidableEq

namespace Tree

/-- What is at a place. The root is always a directory. -/
def get? (t : Tree) (p : Place) : Option Entry :=
  if p = [] then some .directory else t.entries.lookup p

/-- Puts an entry in its place, whatever was there. -/
def set (t : Tree) (p : Place) (e : Entry) : Tree :=
  { t with entries := setIn t.entries }
where
  setIn : List (Place × Entry) → List (Place × Entry)
    | [] => [(p, e)]
    | (q, f) :: r => if q = p then (q, e) :: r else (q, f) :: setIn r

/-- Puts an entry in its place, with the directories on the way there. -/
def put (t : Tree) (p : Place) (e : Entry) : Tree :=
  let make (t : Tree) (q : Place) : Tree :=
    if (t.get? q).isSome then t else t.set q .directory
  (((List.range p.length).map p.take).foldl make t).set p e

/-- Removes what is at a place and below it. -/
def remove (t : Tree) (p : Place) : Tree :=
  { t with entries := t.entries.filter fun e => !p.isPrefixOf e.1 }

/-- Names have at most this many bytes. -/
def maxNameSize : Nat := 255

/-- Paths have fewer bytes than this. -/
def maxPathSize : Nat := 4096

/-- Follows names from a place. Two dots lead to the directory above, and every name but the last
has to be that of a directory. -/
def walk (t : Tree) (here : Place) : List Text → Except SystemError Place
  | [] => .ok here
  | name :: names =>
    match t.get? here with
    | none => .error .notFound
    | some (.file ..) => .error .notDirectory
    | some .directory =>
      if name.isEmpty || name == ['.'] then t.walk here names
      else if name == ['.', '.'] then t.walk here.dropLast names
      else if maxNameSize < name.utf8.length then .error .nameTooLong
      else t.walk (here ++ [name]) names

/-- The names in a path, with empty ones where slashes stand together or at an end. -/
def names : Path → List Text
  | [] => [[]]
  | c :: r =>
    if c = '/' then [] :: names r
    else match names r with
      | [] => [[c]]
      | n :: ns => (c :: n) :: ns

/-- The place that a path leads to. The empty path leads nowhere. -/
def resolve (t : Tree) (p : Path) : Except SystemError Place :=
  if p.elem '\x00' then .error .zeroInPath
  else if maxPathSize ≤ p.utf8.length then .error .nameTooLong
  else match p with
  | [] => .error .notFound
  | '/' :: r => t.walk [] (names r)
  | p => t.walk t.directory (names p)

def read (t : Tree) (p : Path) : Except SystemError Bytes := do
  let place ← t.resolve p
  match t.get? place with
  | none => .error .notFound
  | some .directory => .error .isDirectory
  | some (.file content access) =>
    if access.readable then .ok content else .error .permissionDenied

def readText (t : Tree) (p : Path) : Except SystemError Text := do
  match Utf8.decode (← t.read p) with
  | .ok text => .ok text
  | .error _ => .error .invalidText

/-- Replaces the content of a file, or makes a new one. -/
def write (t : Tree) (p : Path) (content : Bytes) : Except SystemError Tree := do
  let place ← t.resolve p
  match t.get? place with
  | some .directory => .error .isDirectory
  | some (.file _ access) =>
    if access.writable then .ok (t.set place (.file content access)) else .error .permissionDenied
  | none =>
    match t.get? place.dropLast with
    | some .directory => .ok (t.set place (.file content {}))
    | _ => .error .notFound

def isFile (t : Tree) (p : Path) : Bool :=
  match t.resolve p with
  | .error _ => false
  | .ok place =>
    match t.get? place with
    | some (.file ..) => true
    | _ => false

end Tree

end FencedCode
