import FencedCode.Yaml.Scalar

/-! The division of a YAML text into tokens. -/
namespace FencedCode.Yaml

/-- A place where a key may have started that only its colon reveals. It is required if nothing but
a key can stand there. -/
structure PossibleKey where
  required : Bool
  number : Nat
  index : Nat
  line : Nat
  column : Nat
  deriving DecidableEq

/-- The state of a scan. Tokens are kept last first. There is one possible key for each level of
flow collections, innermost first, and one for the block level. -/
structure Scanner where
  cursor : Cursor
  tokens : List Token := []
  indents : List Nat := []
  keyAllowed : Bool := true
  keys : List (Option PossibleKey) := [none]

namespace Scanner

def inFlow (s : Scanner) : Bool := 1 < s.keys.length

/-- One more than the current indentation; zero outside all block collections. -/
def childIndent (s : Scanner) : Nat :=
  match s.indents with
  | [] => 0
  | i :: _ => i + 1

/-- Moves over blanks, comments and breaks. Tabs do not count where a key could start on a line of
its own. -/
def skipGapFrom (flow allowed comment : Bool) (index line column : Nat) : Text → Bool × Cursor
  | [] => (allowed, ⟨index, line, column, []⟩)
  | c :: r =>
    if isBreak c then skipGapFrom flow (allowed || !flow) false (index + 1) (line + 1) 0 r
    else if comment || c == ' ' || (c == '\t' && (flow || !allowed)) ||
        (c == '\uFEFF' && index == 0)
    then skipGapFrom flow allowed comment (index + 1) line (column + 1) r
    else if c == '#' then skipGapFrom flow allowed true (index + 1) line (column + 1) r
    else (allowed, ⟨index, line, column, c :: r⟩)

def skipGap (s : Scanner) : Scanner :=
  let c := s.cursor
  let (keyAllowed, cursor) :=
    skipGapFrom s.inFlow s.keyAllowed false c.index c.line c.column c.rest
  { s with keyAllowed, cursor }

/-- Gives up the keys whose line has ended or that have become too long. -/
def dropStaleKeys (s : Scanner) : Except Problem Scanner := do
  let keys ← s.keys.mapM fun key =>
    match key with
    | none => .ok none
    | some k =>
      if k.line < s.cursor.line || k.index + 1024 < s.cursor.index then
        if k.required then .error .missingColon else .ok none
      else .ok (some k)
  .ok { s with keys }

/-- Gives up the key of the current level. -/
def dropKey (s : Scanner) : Except Problem Scanner :=
  match s.keys with
  | some k :: rest =>
    if k.required then .error .missingColon else .ok { s with keys := none :: rest }
  | _ => .ok s

/-- Remembers that a key may start here. -/
def noteKey (s : Scanner) : Except Problem Scanner :=
  if s.keyAllowed then do
    let s ← s.dropKey
    let c := s.cursor
    let required := !s.inFlow && s.indents.head? == some c.column
    let key : PossibleKey := ⟨required, s.tokens.length, c.index, c.line, c.column⟩
    .ok { s with keys := some key :: s.keys.drop 1 }
  else .ok s

def push (s : Scanner) (t : Token) : Scanner := { s with tokens := t :: s.tokens }

def move (s : Scanner) (n : Nat) : Scanner := { s with cursor := s.cursor.move n }

def allowKey (s : Scanner) (b : Bool) : Scanner := { s with keyAllowed := b }

/-- Opens a block collection if the column is beyond the current indentation. -/
def openBlock (s : Scanner) (t : Token) : Scanner :=
  let column := s.cursor.column
  if !s.inFlow && s.childIndent ≤ column then
    { s with indents := column :: s.indents, tokens := t :: s.tokens }
  else s

/-- Closes the block collections that a predicate selects by their indentation. -/
def closeBlocks (s : Scanner) (p : Nat → Bool) : Scanner :=
  if s.inFlow then s
  else
    let closed := (s.indents.takeWhile p).length
    { s with
      indents := s.indents.drop closed
      tokens := List.replicate closed .blockEnd ++ s.tokens }

/-- Marks a remembered place as the start of a key, and of a block mapping if it is beyond the
current indentation. -/
def insertKey (s : Scanner) (k : PossibleKey) : Scanner :=
  let after := s.tokens.length - k.number
  let starts := !s.inFlow && s.childIndent ≤ k.column
  { s with
    tokens := s.tokens.take after ++ .key ::
      (if starts then [.blockMappingStart] else []) ++ s.tokens.drop after
    indents := if starts then k.column :: s.indents else s.indents
    keys := none :: s.keys.drop 1
    keyAllowed := false }

/-- Ends all open blocks before a directive or a document mark. -/
def leaveDocument (s : Scanner) : Except Problem Scanner := do
  let s ← (s.closeBlocks fun _ => true).dropKey
  .ok (s.allowKey false)

def documentMark (s : Scanner) (t : Token) : Except Problem Scanner := do
  let s ← s.leaveDocument
  .ok ((s.move 3).push t)

def flowStart (s : Scanner) (t : Token) : Except Problem Scanner := do
  let s ← s.noteKey
  .ok (({ s with keys := none :: s.keys, keyAllowed := true }.move 1).push t)

def flowEnd (s : Scanner) (t : Token) : Except Problem Scanner := do
  let s ← s.dropKey
  let keys := if s.inFlow then s.keys.drop 1 else s.keys
  .ok (({ s with keys, keyAllowed := false }.move 1).push t)

def flowEntry (s : Scanner) : Except Problem Scanner := do
  let s ← s.dropKey
  .ok (((s.allowKey true).move 1).push .flowEntry)

def blockEntry (s : Scanner) : Except Problem Scanner := do
  if !s.inFlow && !s.keyAllowed then .error .misplacedEntry
  else
    let s ← (s.openBlock .blockSequenceStart).dropKey
    .ok (((s.allowKey true).move 1).push .blockEntry)

def explicitKey (s : Scanner) : Except Problem Scanner := do
  if !s.inFlow && !s.keyAllowed then .error .misplacedKey
  else
    let s ← (s.openBlock .blockMappingStart).dropKey
    .ok (((s.allowKey (!s.inFlow)).move 1).push .key)

def value (s : Scanner) : Except Problem Scanner :=
  match s.keys with
  | some k :: _ => .ok (((s.insertKey k).move 1).push .value)
  | _ =>
    if !s.inFlow && !s.keyAllowed then .error .misplacedValue
    else
      let s := s.openBlock .blockMappingStart
      .ok (((s.allowKey (!s.inFlow)).move 1).push .value)

/-- The characters that may follow an anchor directly. -/
def endsAnchor (t : Text) : Bool :=
  isGap t || (match t with
    | c :: _ => c == '?' || c == ':' || c == ',' || c == ']' || c == '\x7d' || c == '%' ||
        c == '@' || c == '\x60'
    | [] => true)

def anchor (s : Scanner) (t : Text → Token) : Except Problem Scanner := do
  let s ← s.noteKey
  let c := s.cursor.move 1
  let name := c.rest.takeWhile isNameChar
  let c := c.moveWhile isNameChar
  if name.isEmpty || !endsAnchor c.rest then .error .anchor
  else .ok ({ s with cursor := c, keyAllowed := false }.push (t name))

/-- The characters of tags; in a verbatim tag or a directive flow indicators are among them. -/
def isTagChar (verbatim : Bool) (c : Char) : Bool :=
  isNameChar c || c == ';' || c == '/' || c == '?' || c == ':' || c == '@' || c == '&' ||
    c == '=' || c == '+' || c == '$' || c == '.' || c == '%' || c == '!' || c == '~' || c == '*' ||
    c == '\'' || c == '(' || c == ')' ||
    (verbatim && (c == ',' || c == '[' || c == ']'))

/-- How many bytes a character has whose first byte is given. -/
def leadWidth? (n : Nat) : Option Nat :=
  if n < 0x80 then some 1
  else if n / 0x20 = 6 then some 2
  else if n / 0x10 = 14 then some 3
  else if n / 8 = 30 then some 4
  else none

/-- Reads tag characters and bytes written in hexadecimal. `left` bytes are still due to complete a
character. -/
def tagBytesFrom (verbatim : Bool) (left : Nat) : Text → Except Problem (Bytes × Text)
  | '%' :: a :: b :: r =>
    match hexDigit? a, hexDigit? b with
    | some h, some l =>
      let n := h * 16 + l
      let due :=
        if left = 0 then (leadWidth? n).map (· - 1)
        else if n / 0x40 = 2 then some (left - 1) else none
      match due with
      | none => .error .tag
      | some left => do
        let (bs, rest) ← tagBytesFrom verbatim left r
        .ok (UInt8.ofNat n :: bs, rest)
    | _, _ => .error .tag
  | c :: r =>
    if c == '%' || left != 0 then .error .tag
    else if isTagChar verbatim c then do
      let (bs, rest) ← tagBytesFrom verbatim 0 r
      .ok (String.utf8EncodeChar c ++ bs, rest)
    else .ok ([], c :: r)
  | [] => if left = 0 then .ok ([], []) else .error .tag

def tagBytes (verbatim : Bool) (c : Cursor) : Except Problem (Bytes × Cursor) := do
  let (bs, rest) ← tagBytesFrom verbatim 0 c.rest
  .ok (bs, c.move (c.rest.length - rest.length))

/-- Reads the handle of a tag: an exclamation mark, a name, and perhaps another mark. -/
def tagHandle (c : Cursor) : Text × Cursor :=
  let name := (c.rest.drop 1).takeWhile isNameChar
  let c := (c.move 1).moveWhile isNameChar
  match c.rest with
  | '!' :: _ => ('!' :: name ++ ['!'], c.move 1)
  | _ => ('!' :: name, c)

def tag (s : Scanner) : Except Problem Scanner := do
  let s ← s.noteKey
  let c := s.cursor
  let (handle, suffix, c) ←
    if c.rest.drop 1 |>.head? |> (· == some '<') then do
      let (suffix, c) ← tagBytes true (c.move 2)
      if suffix.isEmpty || c.rest.head? != some '>' then .error .tag
      else .ok ([], suffix, c.move 1)
    else do
      let (handle, c) := tagHandle c
      if 1 < handle.length && handle.getLast? == some '!' then do
        let (suffix, c) ← tagBytes false c
        if suffix.isEmpty then .error .tag else .ok (handle, suffix, c)
      else do
        let (more, c) ← tagBytes false c
        let suffix := Text.utf8 (handle.drop 1) ++ more
        if suffix.isEmpty then .ok ([], Text.utf8 ['!'], c) else .ok (['!'], suffix, c)
  if isGap c.rest || (s.inFlow && c.rest.head? == some ',') then
    .ok ({ s with cursor := c, keyAllowed := false }.push (.tag handle suffix))
  else .error .tag

/-- A number of at most nine digits. -/
def versionNumber (c : Cursor) : Except Problem (Nat × Cursor) :=
  let digits := c.rest.takeWhile Char.isDigit
  if digits.isEmpty || 9 < digits.length then .error .directive
  else .ok (digits.foldl (fun n d => n * 10 + (d.toNat - '0'.toNat)) 0, c.moveWhile Char.isDigit)

def versionDirective (c : Cursor) : Except Problem (Token × Cursor) := do
  let (major, c) ← versionNumber (c.moveWhile isBlankChar)
  match c.rest with
  | '.' :: _ =>
    let (minor, c) ← versionNumber (c.move 1)
    .ok (.version major minor, c)
  | _ => .error .directive

def tagDirective (c : Cursor) : Except Problem (Token × Cursor) := do
  let c := c.moveWhile isBlankChar
  if c.rest.head? != some '!' then .error .directive
  else
    let (handle, c) := tagHandle c
    if 1 < handle.length && handle.getLast? != some '!' then .error .directive
    else if !(c.rest.head?.map isBlankChar).getD false then .error .directive
    else
      let (bs, c) ← tagBytes true (c.moveWhile isBlankChar)
      if bs.isEmpty || !isGap c.rest then .error .directive
      else .ok (.tagDirective handle bs, c)

def directive (s : Scanner) : Except Problem Scanner := do
  let s ← s.leaveDocument
  let c := s.cursor.move 1
  let name := c.rest.takeWhile isNameChar
  let c := c.moveWhile isNameChar
  if !isGap c.rest then .error .directive
  else
    let (t, c) ←
      if name = "YAML".toList then versionDirective c
      else if name = "TAG".toList then tagDirective c
      else .error .directive
    match toLineEnd? c with
    | none => .error .directive
    | some c => .ok ({ s with cursor := c.step }.push t)

def blockScalar (s : Scanner) (literal : Bool) : Except Problem Scanner := do
  let s ← s.dropKey
  let e ← block literal s.childIndent s.cursor
  .ok ({ s with cursor := e.cursor, keyAllowed := true }.push (.scalar .block e.text))

def quotedScalar (s : Scanner) (single : Bool) : Except Problem Scanner := do
  let s ← s.noteKey
  let e ← quoted single s.cursor
  .ok ({ s with cursor := e.cursor, keyAllowed := false }.push (.scalar .quoted e.text))

def plainScalar (s : Scanner) : Except Problem Scanner := do
  let s ← s.noteKey
  let e ← plain s.inFlow s.childIndent s.cursor
  .ok ({ s with cursor := e.cursor, keyAllowed := e.broken }.push (.scalar .plain e.text))

/-- The characters that mean something of their own at the start of a token. -/
def isIndicator (c : Char) : Bool :=
  "-?:,[]\x7b\x7d#&*!|>'\"%@\x60".toList.elem c

/-- Reads the token that starts with `c`, of which `r` is the continuation. -/
def token (s : Scanner) (c : Char) (r : Text) : Except Problem Scanner :=
  if c == '%' && s.cursor.column == 0 then s.directive
  else if s.cursor.atMark '-' then s.documentMark .documentStart
  else if s.cursor.atMark '.' then s.documentMark .documentEnd
  else if c == '[' then s.flowStart .flowSequenceStart
  else if c == '\x7b' then s.flowStart .flowMappingStart
  else if c == ']' then s.flowEnd .flowSequenceEnd
  else if c == '\x7d' then s.flowEnd .flowMappingEnd
  else if c == ',' then s.flowEntry
  else if c == '-' && isGap r then s.blockEntry
  else if c == '?' && (s.inFlow || isGap r) then s.explicitKey
  else if c == ':' && (s.inFlow || isGap r) then s.value
  else if c == '*' then s.anchor .alias
  else if c == '&' then s.anchor .anchor
  else if c == '!' then s.tag
  else if c == '|' && !s.inFlow then s.blockScalar true
  else if c == '>' && !s.inFlow then s.blockScalar false
  else if c == '\'' then s.quotedScalar true
  else if c == '"' then s.quotedScalar false
  else if !isIndicator c && c != '\t' then s.plainScalar
  else if c == '-' && !(r.head?.map isBlankChar).getD false then s.plainScalar
  else if !s.inFlow && (c == '?' || c == ':') then s.plainScalar
  else .error .tokenStart

/-- Reads all tokens from a state on. A token takes at least one character. -/
def run (s : Scanner) : Except Problem (List Token) :=
  let skipped := s.skipGap
  match skipped.cursor.rest with
  | [] =>
    match (skipped.closeBlocks fun _ => true).dropKey with
    | .error e => .error e
    | .ok s => .ok s.tokens.reverse
  | c :: r =>
    match skipped.dropStaleKeys with
    | .error e => .error e
    | .ok fresh =>
      match (fresh.closeBlocks (fresh.cursor.column < ·)).token c r with
      | .error e => .error e
      | .ok next =>
        if _h : next.cursor.rest.length < s.cursor.rest.length then run next
        else .error .tokenStart
termination_by s.cursor.rest.length
decreasing_by assumption

end Scanner

/-- The tokens of a text. -/
def tokens (t : Text) : Except Problem (List Token) :=
  if t.all isAllowed then Scanner.run { cursor := { rest := unifyBreaks t } } else .error .character

end FencedCode.Yaml
