import FencedCode.Toml.Statement

/-! The table that a TOML document describes. -/
namespace FencedCode.Toml

/-- How a table came to be: by its own header, by the headers of its subtables, or by keys with
dots. -/
inductive TableKind
  | written
  | implied
  | dotted
  deriving DecidableEq

/-- An entry of a table under construction. The elements of an array of tables are kept last
first. -/
inductive Item
  | value (v : Value)
  | table (kind : TableKind) (entries : List (Text × Item))
  | elements (elements : List (List (Text × Item)))

abbrev Entries := List (Text × Item)

/-- Sets an entry in its place, or at the end if there is none. -/
def Entries.set (es : Entries) (key : Text) (item : Item) : Entries :=
  match es with
  | [] => [(key, item)]
  | (k, i) :: r => if k = key then (k, item) :: r else (k, i) :: Entries.set r key item

/-- Changes the table that a path leads to. Tables on the way that do not exist are made. In an
array of tables the last element counts, and keys with dots do not enter tables that have a header
of their own. -/
def within (dotted : Bool) (change : TableKind → Entries → Except Problem Entries) :
    List Text → TableKind → Entries → Except Problem Entries
  | [], kind, es => change kind es
  | k :: ks, _, es =>
    match es.lookup k with
    | none => do
      let kind := if dotted then .dotted else .implied
      let new ← within dotted change ks kind []
      .ok (es.set k (.table kind new))
    | some (.table kind old) => do
      if dotted && kind == .written then .error .repeatedKey
      else
        let new ← within dotted change ks kind old
        .ok (es.set k (.table kind new))
    | some (.elements (last :: before)) => do
      let new ← within dotted change ks .written last
      .ok (es.set k (.elements (new :: before)))
    | some _ => .error .notTable

/-- Adds a value. A key with dots stands in a table that such keys have made. -/
def addPair (es : Entries) (p : Pair) : Except Problem Entries :=
  let add (kind : TableKind) (es : Entries) : Except Problem Entries :=
    if (kind == .dotted) == p.name.path.isEmpty then .error .repeatedKey
    else if (es.lookup p.name.key).isSome then .error .repeatedKey
    else .ok (es.set p.name.key (.value p.value))
  within true add p.name.path .written es

def addPairs (es : Entries) (ps : List Pair) : Except Problem Entries := ps.foldlM addPair es

/-- Adds the table of a header with its pairs. A table has one header, which may follow those of its
subtables. -/
def addTable (root : Entries) (h : Header) (ps : List Pair) : Except Problem Entries :=
  let add (_ : TableKind) (es : Entries) : Except Problem Entries :=
    match h.element, es.lookup h.name.key with
    | false, none => do .ok (es.set h.name.key (.table .written (← addPairs [] ps)))
    | false, some (.table .implied old) => do
      .ok (es.set h.name.key (.table .written (← addPairs old ps)))
    | true, none => do .ok (es.set h.name.key (.elements [← addPairs [] ps]))
    | true, some (.elements old) => do
      .ok (es.set h.name.key (.elements ((← addPairs [] ps) :: old)))
    | _, some _ => .error .repeatedKey
  within false add h.name.path .written root

/-- The pairs before the first header, and the headers with their pairs. -/
def sections : List Statement → List Pair × List (Header × List Pair)
  | [] => ([], [])
  | .pair p :: r => (p :: (sections r).1, (sections r).2)
  | .header h :: r => ([], (h, (sections r).1) :: (sections r).2)

mutual

def Item.finish : Item → Value
  | .value v => v
  | .table _ es => .table (finishEntries es)
  | .elements es => .array (finishElements es).reverse

def finishEntries : List (Text × Item) → Table
  | [] => []
  | (k, i) :: r => (k, i.finish) :: finishEntries r

def finishElements : List (List (Text × Item)) → List Value
  | [] => []
  | e :: r => .table (finishEntries e) :: finishElements r

end

/-- Reads a value in which collections are nested at most `depth` deep. -/
def value : Nat → Reader Value
  | _, '"' :: r => do
    let (t, rest) ← string ('"' :: r)
    .ok (.text t, rest)
  | _, '\'' :: r => do
    let (t, rest) ← string ('\'' :: r)
    .ok (.text t, rest)
  | 0, '[' :: _ => .error .depth
  | depth + 1, '[' :: r => do
    let (vs, rest) ← array (value depth) r
    .ok (.array vs, rest)
  | 0, '\x7b' :: _ => .error .depth
  | depth + 1, '\x7b' :: r => do
    let (ps, rest) ← inlineTable (value depth) r
    .ok (.table (finishEntries (← addPairs [] ps)), rest)
  | _, t => literal t

/-- A byte order mark may stand before a document. -/
def dropMark : Text → Text
  | '\uFEFF' :: r => r
  | t => t

/-- The table of a document. -/
def parse (t : Text) : Except Problem Table := do
  let (ps, tables) := sections (← statements (value maxDepth) (dropMark t))
  let root ← tables.foldlM (fun root (h, ps) => addTable root h ps) (← addPairs [] ps)
  .ok (finishEntries root)

end FencedCode.Toml
