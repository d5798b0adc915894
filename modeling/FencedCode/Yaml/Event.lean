import FencedCode.Yaml.Scan

/-! The events of a YAML document: its scalars and aliases, and the starts and ends of its
collections, in order. -/
namespace FencedCode.Yaml

inductive CollectionKind
  | sequence
  | mapping
  deriving DecidableEq

structure Properties where
  anchor : Option Text := none
  tag : Option Bytes := none
  deriving DecidableEq

inductive Event
  | alias (name : Text)
  | scalar (properties : Properties) (style : ScalarStyle) (text : Text)
  | start (properties : Properties) (kind : CollectionKind)
  | stop
  deriving DecidableEq

/-- The scalar that stands where nothing is written. -/
def Event.empty (p : Properties := {}) : Event := .scalar p .plain []

/-- What the handles of tags stand for. -/
abbrev Handles := List (Text × Bytes)

namespace Handles

def standard : Handles :=
  [(['!'], Text.utf8 ['!']), (['!', '!'], Text.utf8 "tag:yaml.org,2002:".toList)]

/-- The full tag of a handle and a suffix. Without a handle the suffix is the tag. -/
def resolve (handles : Handles) (handle : Text) (suffix : Bytes) : Except Problem Bytes :=
  if handle.isEmpty then .ok suffix
  else match handles.lookup handle with
    | some start => .ok (start ++ suffix)
    | none => .error .tag

end Handles

/-- Reads directives. The handles that they define hide the standard ones. -/
def directives (version : Bool) (handles : Handles) :
    List Token → Except Problem (Handles × List Token)
  | .version major minor :: r =>
    if version then .error .repeatedDirective
    else if major = 1 ∧ (minor = 1 ∨ minor = 2) then directives true handles r
    else .error .version
  | .tagDirective handle start :: r =>
    if (handles.lookup handle).isSome then .error .repeatedDirective
    else directives version ((handle, start) :: handles) r
  | ts => .ok (handles ++ Handles.standard, ts)

/-- What remains to be read. -/
inductive Goal
  | node (block indentless : Bool)
  | blockEntries
  | indentlessEntries
  | blockKeys
  | blockValue
  | flowEntries (first : Bool)
  | pairKey
  | pairValue
  | pairEnd
  | flowKeys (first : Bool)
  | flowValue
  | flowNoValue
  deriving DecidableEq

/-- What one step towards a goal gives: events, the goals that take its place, and the tokens that
are left. -/
structure Step where
  events : List Event := []
  goals : List Goal := []
  rest : List Token

/-- Reads an anchor and a tag, in either order. -/
def properties (handles : Handles) : List Token → Except Problem (Properties × List Token)
  | .anchor name :: .tag handle suffix :: r => do
    let tag ← handles.resolve handle suffix
    .ok (⟨some name, some tag⟩, r)
  | .anchor name :: r => .ok (⟨some name, none⟩, r)
  | .tag handle suffix :: .anchor name :: r => do
    let tag ← handles.resolve handle suffix
    .ok (⟨some name, some tag⟩, r)
  | .tag handle suffix :: r => do
    let tag ← handles.resolve handle suffix
    .ok (⟨none, some tag⟩, r)
  | ts => .ok ({}, ts)

namespace Goal

/-- Reads a node. Block collections may start only where `block` holds, and an entry without an
indentation of its own only where `indentless` does. The tag `!` of a scalar means no tag. -/
def nodeStep (handles : Handles) (block indentless : Bool) (ts : List Token) :
    Except Problem Step :=
  match ts with
  | .alias name :: r => .ok { events := [.alias name], rest := r }
  | ts => do
    let (p, ts) ← properties handles ts
    match ts with
    | .blockEntry :: _ =>
      if indentless then
        .ok { events := [.start p .sequence], goals := [.indentlessEntries], rest := ts }
      else missing p ts
    | .scalar style text :: r =>
      let p := if p.tag = some (Text.utf8 ['!']) then { p with tag := none } else p
      .ok { events := [.scalar p style text], rest := r }
    | .flowSequenceStart :: r =>
      .ok { events := [.start p .sequence], goals := [.flowEntries true], rest := r }
    | .flowMappingStart :: r =>
      .ok { events := [.start p .mapping], goals := [.flowKeys true], rest := r }
    | .blockSequenceStart :: r =>
      if block then .ok { events := [.start p .sequence], goals := [.blockEntries], rest := r }
      else missing p ts
    | .blockMappingStart :: r =>
      if block then .ok { events := [.start p .mapping], goals := [.blockKeys], rest := r }
      else missing p ts
    | ts => missing p ts
where
  missing (p : Properties) (ts : List Token) : Except Problem Step :=
    if p = {} then .error .nodeContent else .ok { events := [.empty p], rest := ts }

/-- Reads a node, or nothing before one of the tokens that a predicate selects, and goes on. -/
def nodeUnless (stop : Token → Bool) (block indentless : Bool) (next : Goal) (ts : List Token) :
    Step :=
  if (ts.head?.map stop).getD false then { events := [.empty], goals := [next], rest := ts }
  else { goals := [.node block indentless, next], rest := ts }

/-- Reads the next entry of a flow sequence; the comma before it has been read. -/
def flowEntry : List Token → Step
  | .flowSequenceEnd :: r => { events := [.stop], rest := r }
  | .key :: r =>
    { events := [.start {} .mapping], goals := [.pairKey, .flowEntries false], rest := r }
  | ts => { goals := [.node false false, .flowEntries false], rest := ts }

/-- Reads the next key of a flow mapping; the comma before it has been read. -/
def flowKey : List Token → Step
  | .flowMappingEnd :: r => { events := [.stop], rest := r }
  | .key :: r =>
    nodeUnless (fun t => t = .value ∨ t = .flowEntry ∨ t = .flowMappingEnd) false false .flowValue r
  | ts => { goals := [.node false false, .flowNoValue], rest := ts }

/-- One step towards a goal. In a flow sequence a key that is left out takes the token after it
along. -/
def step (handles : Handles) : Goal → List Token → Except Problem Step
  | .node block indentless, ts => nodeStep handles block indentless ts
  | .blockEntries, .blockEntry :: r =>
    .ok (nodeUnless (fun t => t = .blockEntry ∨ t = .blockEnd) true false .blockEntries r)
  | .blockEntries, .blockEnd :: r => .ok { events := [.stop], rest := r }
  | .blockEntries, _ => .error .sequenceEntry
  | .indentlessEntries, .blockEntry :: r =>
    .ok (nodeUnless (fun t => t = .blockEntry ∨ t = .key ∨ t = .value ∨ t = .blockEnd)
      true false .indentlessEntries r)
  | .indentlessEntries, ts => .ok { events := [.stop], rest := ts }
  | .blockKeys, .key :: r =>
    .ok (nodeUnless (fun t => t = .key ∨ t = .value ∨ t = .blockEnd) true true .blockValue r)
  | .blockKeys, .blockEnd :: r => .ok { events := [.stop], rest := r }
  | .blockKeys, _ => .error .mappingKey
  | .blockValue, .value :: r =>
    .ok (nodeUnless (fun t => t = .key ∨ t = .value ∨ t = .blockEnd) true true .blockKeys r)
  | .blockValue, ts => .ok { events := [.empty], goals := [.blockKeys], rest := ts }
  | .flowEntries true, ts => .ok (flowEntry ts)
  | .flowEntries false, .flowEntry :: r => .ok (flowEntry r)
  | .flowEntries false, .flowSequenceEnd :: r => .ok { events := [.stop], rest := r }
  | .flowEntries false, _ => .error .separator
  | .pairKey, ts =>
    match ts with
    | .value :: r => .ok { events := [.empty], goals := [.pairValue], rest := r }
    | .flowEntry :: r => .ok { events := [.empty], goals := [.pairValue], rest := r }
    | .flowSequenceEnd :: r => .ok { events := [.empty], goals := [.pairValue], rest := r }
    | ts => .ok { goals := [.node false false, .pairValue], rest := ts }
  | .pairValue, .value :: r =>
    .ok (nodeUnless (fun t => t = .flowEntry ∨ t = .flowSequenceEnd) false false .pairEnd r)
  | .pairValue, ts => .ok { events := [.empty], goals := [.pairEnd], rest := ts }
  | .pairEnd, ts => .ok { events := [.stop], rest := ts }
  | .flowKeys true, ts => .ok (flowKey ts)
  | .flowKeys false, .flowEntry :: r => .ok (flowKey r)
  | .flowKeys false, .flowMappingEnd :: r => .ok { events := [.stop], rest := r }
  | .flowKeys false, _ => .error .separator
  | .flowValue, .value :: r =>
    .ok (nodeUnless (fun t => t = .flowEntry ∨ t = .flowMappingEnd) false false (.flowKeys false) r)
  | .flowValue, ts => .ok { events := [.empty], goals := [.flowKeys false], rest := ts }
  | .flowNoValue, ts => .ok { events := [.empty], goals := [.flowKeys false], rest := ts }

/-- Steps until no goal is left. -/
def run (handles : Handles) :
    Nat → List Goal → List Token → Except Problem (List Event × List Token)
  | _, [], ts => .ok ([], ts)
  | 0, _ :: _, _ => .error .nodeContent
  | n + 1, g :: gs, ts =>
    match g.step handles ts with
    | .error e => .error e
    | .ok s =>
      match run handles n (s.goals ++ gs) s.rest with
      | .error e => .error e
      | .ok (events, rest) => .ok (s.events ++ events, rest)

end Goal

/-- The events of a node. Between two tokens there are fewer than eight steps. -/
def nodeEvents (handles : Handles) (ts : List Token) : Except Problem (List Event × List Token) :=
  Goal.run handles (8 * ts.length + 8) [.node true false] ts

/-- The events of the document in a text, or `none` if the text holds nothing. A second document is
refused. -/
def events (ts : List Token) : Except Problem (Option (List Event)) :=
  match ts with
  | [] => .ok none
  | t :: _ => do
    let (found, rest) ← match t with
      | .version .. | .tagDirective .. | .documentStart => do
        let (handles, ts) ← directives false [] ts
        match ts with
        | .documentStart :: r =>
          match r with
          | [] | .version .. :: _ | .tagDirective .. :: _ | .documentStart :: _ |
              .documentEnd :: _ => .ok ([.empty], r)
          | r => nodeEvents handles r
        | _ => .error .documentStart
      | _ => nodeEvents Handles.standard ts
    if rest.all (· == .documentEnd) then .ok (some found) else .error .secondDocument

end FencedCode.Yaml
