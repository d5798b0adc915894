import FencedCode.Yaml.Event

/-! The tree of a YAML document. Anchors are numbered, and aliases refer to their numbers. -/
namespace FencedCode.Yaml

/-- The items of a mapping are its keys and values in turn. -/
inductive Node
  | alias (number : Nat)
  | scalar (anchor : Option Nat) (tag : Option Bytes) (style : ScalarStyle) (text : Text)
  | collection (anchor : Option Nat) (tag : Option Bytes) (kind : CollectionKind)
      (items : List Node)

/-- A collection that has not ended, with its items last first. -/
structure OpenCollection where
  anchor : Option Nat
  tag : Option Bytes
  kind : CollectionKind
  items : List Node

/-- The state of a composition: the numbers of the names seen, the open collections, innermost
first, and the finished nodes outside them. -/
structure Composer where
  names : List (Text × Nat) := []
  stack : List OpenCollection := []
  done : List Node := []

namespace Composer

/-- Numbers an anchor by how many other names there are. A name that is used again gets a new
number, which a later name may share. -/
def anchor (c : Composer) : Option Text → Option Nat × Composer
  | none => (none, c)
  | some name =>
    let number := c.names.length
    let names := (name, number) :: c.names.filter (·.1 != name)
    (some number, { c with names })

def add (c : Composer) (n : Node) : Composer :=
  match c.stack with
  | [] => { c with done := n :: c.done }
  | top :: stack => { c with stack := { top with items := n :: top.items } :: stack }

def step (c : Composer) : Event → Except Problem Composer
  | .alias name =>
    match c.names.lookup name with
    | some number => .ok (c.add (.alias number))
    | none => .error .unknownAlias
  | .scalar p style text =>
    let (number, c) := c.anchor p.anchor
    .ok (c.add (.scalar number p.tag style text))
  | .start p kind =>
    let (number, c) := c.anchor p.anchor
    .ok { c with stack := ⟨number, p.tag, kind, []⟩ :: c.stack }
  | .stop =>
    match c.stack with
    | [] => .ok c
    | top :: stack =>
      .ok ({ c with stack }.add (.collection top.anchor top.tag top.kind top.items.reverse))

end Composer

namespace Node

def ofEvents (events : List Event) : Except Problem Node := do
  let c ← events.foldlM Composer.step {}
  match c.done with
  | n :: _ => .ok n
  | [] => .error .nodeContent

mutual

/-- The nodes with anchors, under their numbers, in the order of their starts. -/
def anchored : Node → List (Nat × Node)
  | .alias _ => []
  | .scalar anchor tag style text =>
    anchor.toList.map (·, .scalar anchor tag style text)
  | .collection anchor tag kind items =>
    anchor.toList.map (·, .collection anchor tag kind items) ++ anchoredItems items

def anchoredItems : List Node → List (Nat × Node)
  | [] => []
  | n :: ns => anchored n ++ anchoredItems ns

end

end Node

end FencedCode.Yaml
