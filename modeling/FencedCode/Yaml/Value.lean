import FencedCode.Yaml.Node
import FencedCode.Yaml.Number

/-! The values of YAML documents. -/
namespace FencedCode.Yaml

inductive Value
  | null
  | bool (b : Bool)
  | int (n : Int)
  | float (x : Float)
  | text (t : Text)
  | sequence (items : List Value)
  | mapping (entries : List (Value × Value))
  | tagged (tag : Text) (v : Value)

namespace Value

/-- All floats that are no numbers are the same, and so are the two zeros. -/
def sameFloat (x y : Float) : Bool := x == y || (x.isNaN && y.isNaN)

/-- Whether two values are the same up to the order of entries, down to a depth. -/
def same : Nat → Value → Value → Bool
  | 0, _, _ => false
  | n + 1, a, b =>
    match a, b with
    | .null, .null => true
    | .bool a, .bool b => a == b
    | .int a, .int b => a == b
    | .float a, .float b => sameFloat a b
    | .text a, .text b => a == b
    | .sequence as, .sequence bs =>
      as.length == bs.length && (as.zip bs).all fun (a, b) => same n a b
    | .mapping as, .mapping bs =>
      as.length == bs.length && as.all fun (k, v) => bs.any fun (l, w) => same n k l && same n v w
    | .tagged s a, .tagged t b => s == t && same n a b
    | _, _ => false

/-- Tags are no part of what a value is. -/
def isMapping : Value → Bool
  | .mapping _ => true
  | .tagged _ v => v.isMapping
  | _ => false

end Value

/-- Collections may be nested this deep. -/
def maxDepth : Nat := 128

/-- The deepest value has a tag on every level. -/
def sameValue (a b : Value) : Bool := a.same (2 * maxDepth + 4) b

def null? (t : Text) : Bool := ["null", "Null", "NULL", "~"].any (·.toList == t)

def bool? (t : Text) : Option Bool :=
  if ["true", "True", "TRUE"].any (·.toList == t) then some true
  else if ["false", "False", "FALSE"].any (·.toList == t) then some false
  else none

/-- Integers of 64 bits. Those of up to 128 bits are refused, and larger ones are none. -/
def boundedInt? (t : Text) : Except Problem (Option Int) :=
  match integer? t with
  | none => .ok none
  | some n =>
    if -0x8000000000000000 ≤ n ∧ n < 0x10000000000000000 then .ok (some n)
    else if -0x80000000000000000000000000000000 ≤ n ∧ n < 0x100000000000000000000000000000000 then
      .error .scalarType
    else .ok none

/-- The value of a plain scalar without a tag. -/
def plainValue (t : Text) : Except Problem Value := do
  if t.isEmpty || null? t then return .null
  if let some b := bool? t then return .bool b
  if let some n ← boundedInt? t then return .int n
  if !hasLeadingZero t then
    if let some x := float? t then return .float x
  return .text t

/-- The value of a scalar whose tag is one of the core types, or no type at all. -/
def taggedScalar (tag : String) (t : Text) : Option (Except Problem Value) :=
  let orRefuse (v : Option Value) : Except Problem Value :=
    match v with
    | some v => .ok v
    | none => .error .scalarType
  match tag with
  | "tag:yaml.org,2002:bool" => some (orRefuse ((bool? t).map .bool))
  | "tag:yaml.org,2002:int" => some (do orRefuse ((← boundedInt? t).map .int))
  | "tag:yaml.org,2002:float" => some (orRefuse ((float? t).map .float))
  | "tag:yaml.org,2002:null" => some (orRefuse (if null? t then some .null else none))
  | _ => none

/-- The name of a tag that starts with an exclamation mark. -/
def localTag? : Option Bytes → Option Text
  | some (33 :: name) =>
    match Utf8.decode name with
    | .ok name => some name
    | .error _ => none
  | _ => none

/-- The value of a scalar. A local tag that names something leaves a plain scalar its type; any
other tag outside the core types makes a text. -/
def scalarValue (tag : Option Bytes) (style : ScalarStyle) (t : Text) : Except Problem Value :=
  let plainOrText : Except Problem Value :=
    if style = .plain then plainValue t else .ok (.text t)
  match tag with
  | none => plainOrText
  | some bytes =>
    if bytes.head? = some 33 then plainOrText
    else match taggedScalar (Utf8.decodeLossy bytes).toString t with
      | some v => v
      | none => .ok (.text t)

/-- Adds a local tag to a value. A tag without a name is refused. -/
def withTag (tag : Option Bytes) (v : Value) : Except Problem Value :=
  match localTag? tag with
  | none => .ok v
  | some [] => .error .tag
  | some name => .ok (.tagged name v)

/-- Pairs keys with values. -/
def entriesOf : List Value → List (Value × Value)
  | k :: v :: r => (k, v) :: entriesOf r
  | _ => []

def hasRepeatedKey : List (Value × Value) → Bool
  | [] => false
  | (k, _) :: r => r.any (fun e => sameValue k e.1) || hasRepeatedKey r

/-- What aliases refer to, and how many may still be followed. -/
structure Anchors where
  nodes : List (Nat × Node)
  left : Nat

/-- Follows an alias. Of the nodes with one number the last counts. -/
def Anchors.follow (a : Anchors) : Node → Except Problem (Node × Anchors)
  | .alias number =>
    match a.left, a.nodes.reverse.lookup number with
    | left + 1, some n => .ok (n, { a with left })
    | 0, _ => .error .expansion
    | _, none => .error .unknownAlias
  | n => .ok (n, a)

/-- The value of a node in which collections are nested at most `depth` deep. -/
def Node.value (depth : Nat) (a : Anchors) (n : Node) : Except Problem (Value × Anchors) := do
  let (n, a) ← a.follow n
  match n with
  | .alias _ => .error .unknownAlias
  | .scalar _ tag style text =>
    let v ← scalarValue tag style text
    let v ← withTag tag v
    .ok (v, a)
  | .collection _ tag kind items =>
    match depth with
    | 0 => .error .depth
    | depth + 1 =>
      let (values, a) ← items.foldlM (fun (values, a) n => do
        let (v, a) ← n.value depth a
        .ok (v :: values, a)) (([], a) : List Value × Anchors)
      let values := values.reverse
      let v ← match kind with
        | .sequence => Except.ok (Value.sequence values)
        | .mapping =>
          let entries := entriesOf values
          if hasRepeatedKey entries then .error .repeatedKey else .ok (.mapping entries)
      let v ← withTag tag v
      .ok (v, a)

/-- The value of a text. A text that holds nothing is null. -/
def parse (t : Text) : Except Problem Value := do
  match ← events (← tokens t) with
  | none => .ok .null
  | some es =>
    let n ← Node.ofEvents es
    let (v, _) ← n.value maxDepth ⟨n.anchored, 100 * es.length⟩
    .ok v

end FencedCode.Yaml
