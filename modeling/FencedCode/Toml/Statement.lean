import FencedCode.Toml.Literal
import FencedCode.Toml.Quoted

/-! The statements of a TOML document: keys with values, and headers of tables. -/
namespace FencedCode.Toml

/-- Collections may be nested this deep, and keys may have this many parts. -/
def maxDepth : Nat := 79

/-- A bare key has ASCII letters, digits, underscores and hyphens. -/
def isKeyChar (c : Char) : Bool := c.isAlphanum || c == '_' || c == '-'

def simpleKey (t : Text) : Except Problem (Text × Text) :=
  match t with
  | '"' :: r => lineString '"' r
  | '\'' :: r => lineString '\'' r
  | t =>
    let key := t.takeWhile isKeyChar
    if key.isEmpty then .error .key else .ok (key, t.dropWhile isKeyChar)

/-- Reads keys with dots between them, and the blanks around them. -/
def keyParts (t : Text) : Except Problem (List Text × Text) :=
  match simpleKey (skipBlanks t) with
  | .error e => .error e
  | .ok (key, rest) =>
    match skipBlanks rest with
    | '.' :: r =>
      if _h : r.length < t.length then
        match keyParts r with
        | .error e => .error e
        | .ok (keys, rest) => .ok (key :: keys, rest)
      else .error .key
    | rest => .ok ([key], rest)
termination_by t.length
decreasing_by assumption

/-- A key of one or more parts; the last one stands in the table that the others lead to. -/
structure KeyPath where
  path : List Text
  key : Text
  deriving DecidableEq

def keyPath (t : Text) : Except Problem (KeyPath × Text) := do
  let (keys, rest) ← keyParts t
  match keys.getLast? with
  | none => .error .key
  | some key => if maxDepth < keys.length then .error .depth else .ok (⟨keys.dropLast, key⟩, rest)

/-- Moves over blanks, breaks and comments between the items of an array. -/
def skipGap (comment : Bool) : Text → Except Problem Text
  | [] => .ok []
  | c :: r =>
    if c == '\n' then skipGap false r
    else if c == '\r' && r.head? == some '\n' then skipGap comment r
    else if comment then if isPlainChar c then skipGap true r else .error .character
    else if isBlankChar c then skipGap false r
    else if c == '#' then skipGap true r
    else .ok (c :: r)

abbrev Reader (α : Type) := Text → Except Problem (α × Text)

/-- Reads the items of an array that is not empty, and its closing bracket. -/
def arrayItems (item : Reader Value) (t : Text) : Except Problem (List Value × Text) :=
  match item t with
  | .error e => .error e
  | .ok (v, rest) =>
    match skipGap false rest with
    | .error e => .error e
    | .ok (']' :: r) => .ok ([v], r)
    | .ok (',' :: r) =>
      match skipGap false r with
      | .error e => .error e
      | .ok (']' :: r) => .ok ([v], r)
      | .ok r =>
        if _h : r.length < t.length then
          match arrayItems item r with
          | .error e => .error e
          | .ok (vs, rest) => .ok (v :: vs, rest)
        else .error .separator
    | .ok _ => .error .separator
termination_by t.length
decreasing_by assumption

def array (item : Reader Value) (t : Text) : Except Problem (List Value × Text) :=
  match skipGap false t with
  | .error e => .error e
  | .ok (']' :: r) => .ok ([], r)
  | .ok r => arrayItems item r

/-- A key with its value. -/
structure Pair where
  name : KeyPath
  value : Value

def pair (value : Reader Value) (t : Text) : Except Problem (Pair × Text) := do
  let (name, rest) ← keyPath t
  match rest with
  | '=' :: r =>
    let (v, rest) ← value (skipBlanks r)
    .ok (⟨name, v⟩, rest)
  | _ => .error .separator

/-- Reads the pairs of an inline table that is not empty, and its closing brace. -/
def inlinePairs (value : Reader Value) (t : Text) : Except Problem (List Pair × Text) :=
  match pair value t with
  | .error e => .error e
  | .ok (p, rest) =>
    match skipBlanks rest with
    | '\x7d' :: r => .ok ([p], r)
    | ',' :: r =>
      if _h : r.length < t.length then
        match inlinePairs value r with
        | .error e => .error e
        | .ok (ps, rest) => .ok (p :: ps, rest)
      else .error .separator
    | _ => .error .separator
termination_by t.length
decreasing_by assumption

def inlineTable (value : Reader Value) (t : Text) : Except Problem (List Pair × Text) :=
  match skipBlanks t with
  | '\x7d' :: r => .ok ([], r)
  | r => inlinePairs value r

/-- A header starts a table, or a further element of an array of tables. -/
structure Header where
  element : Bool
  name : KeyPath
  deriving DecidableEq

def header (t : Text) : Except Problem (Header × Text) :=
  match t with
  | '[' :: '[' :: r => do
    let (name, rest) ← keyPath r
    match rest with
    | ']' :: ']' :: r => .ok (⟨true, name⟩, r)
    | _ => .error .separator
  | '[' :: r => do
    let (name, rest) ← keyPath r
    match rest with
    | ']' :: r => .ok (⟨false, name⟩, r)
    | _ => .error .separator
  | _ => .error .key

/-- Moves over blanks, a comment and the break at the end of a line. -/
def lineEnd (t : Text) : Except Problem Text :=
  let t := skipBlanks t
  let t := if t.head? = some '#' then t.dropWhile isPlainChar else t
  match t with
  | [] => .ok []
  | '\n' :: r => .ok r
  | '\r' :: '\n' :: r => .ok r
  | _ => .error .lineEnd

inductive Statement
  | pair (p : Pair)
  | header (h : Header)

/-- Reads the statement of a line; a line may have none. -/
def statement (value : Reader Value) (t : Text) : Except Problem (Option Statement × Text) := do
  let t := skipBlanks t
  match t with
  | [] => .ok (none, [])
  | c :: _ =>
    if c = '#' ∨ c = '\n' ∨ c = '\r' then .ok (none, ← lineEnd t)
    else if c = '[' then
      let (h, rest) ← header t
      .ok (some (.header h), ← lineEnd rest)
    else
      let (p, rest) ← pair value t
      .ok (some (.pair p), ← lineEnd rest)

def statements (value : Reader Value) (t : Text) : Except Problem (List Statement) :=
  match t with
  | [] => .ok []
  | c :: r =>
    match statement value (c :: r) with
    | .error e => .error e
    | .ok (s, rest) =>
      if _h : rest.length < (c :: r).length then
        match statements value rest with
        | .error e => .error e
        | .ok ss => .ok (s.toList ++ ss)
      else .error .lineEnd
termination_by t.length
decreasing_by assumption

end FencedCode.Toml
