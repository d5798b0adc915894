import FencedCode.Yaml.Token

/-! The scalars of YAML: plain, quoted and block ones, with their lines folded. -/
namespace FencedCode.Yaml

/-- The gap between two words of a scalar: blanks on one line, or the breaks that end lines. -/
structure Gap where
  blanks : Text := []
  first : Option Char := none
  more : Text := []
  broken : Bool := false
  deriving DecidableEq

namespace Gap

/-- Adds a blank or a break. Blanks around breaks do not count. -/
def add (g : Gap) (c : Char) : Gap :=
  if isBreak c then
    if g.broken then { g with more := c :: g.more }
    else { blanks := [], first := some c, more := [], broken := true }
  else if g.broken then g
  else { g with blanks := c :: g.blanks }

/-- What a gap stands for, in reverse: one line feed becomes a space, each further one stays. -/
def folded (g : Gap) : Text :=
  if g.broken then
    match g.first with
    | some '\n' => if g.more.isEmpty then [' '] else g.more
    | some c => g.more ++ [c]
    | none => g.more
  else g.blanks

end Gap

/-- The outcome of a scalar: its text, the place after it, and whether a line was broken just
before that place. -/
structure ScalarEnd where
  text : Text
  cursor : Cursor
  broken : Bool := false

/-- Whether a character of a plain scalar ends it. In flow collections the brackets and the comma
do, and a colon must not stand before them. -/
def endsPlain (flow : Bool) (c : Char) (r : Text) : Except Problem Bool :=
  if flow && c == ':' && (match r with
      | d :: _ => d == ',' || d == '?' || d == '[' || d == ']' || d == '\x7b' || d == '\x7d'
      | [] => false) then .error .flowColon
  else .ok ((c == ':' && isGap r) ||
    (flow && (c == ',' || c == '[' || c == ']' || c == '\x7b' || c == '\x7d')))

/-- Reads a plain scalar. `text` is its text so far in reverse; inside a word `gap` is `none`. The
lines that continue it are indented by at least `indent`. -/
def plainFrom (flow : Bool) (indent : Nat) (text : Text) (gap : Option Gap)
    (index line column : Nat) : Text → Except Problem ScalarEnd
  | [] => .ok ⟨text.reverse, ⟨index, line, column, []⟩, (gap.map Gap.broken).getD false⟩
  | c :: r =>
    let stop : ScalarEnd :=
      ⟨text.reverse, ⟨index, line, column, c :: r⟩, (gap.map Gap.broken).getD false⟩
    if isBreak c then
      plainFrom flow indent text (some ((gap.getD {}).add c)) (index + 1) (line + 1) 0 r
    else if isBlankChar c then
      if c = '\t' && column < indent && (gap.getD {}).broken then .error .tab
      else plainFrom flow indent text (some ((gap.getD {}).add c)) (index + 1) line (column + 1) r
    else
      let outside := match gap with
        | some g => (g.broken && !flow && column < indent) || c == '#' ||
            Cursor.atDocumentMark ⟨index, line, column, c :: r⟩
        | none => false
      if outside then .ok stop
      else match endsPlain flow c r with
        | .error e => .error e
        | .ok true => .ok stop
        | .ok false =>
          plainFrom flow indent (c :: ((gap.map Gap.folded).getD [] ++ text)) none
            (index + 1) line (column + 1) r

def plain (flow : Bool) (indent : Nat) (c : Cursor) : Except Problem ScalarEnd :=
  plainFrom flow indent [] (some {}) c.index c.line c.column c.rest

/-- The state inside a quoted scalar. -/
inductive QuotedState
  | word
  | gap (g : Gap)
  | escape
  | hex (left value : Nat)
  deriving DecidableEq

/-- What a backslash and a character stand for: a character, or the number of hexadecimal digits
that follow. -/
def escaped? (c : Char) : Option (Char ⊕ Nat) :=
  match c with
  | '0' => some (.inl '\x00')
  | 'a' => some (.inl '\x07')
  | 'b' => some (.inl '\x08')
  | 't' => some (.inl '\t')
  | '\t' => some (.inl '\t')
  | 'n' => some (.inl '\n')
  | 'v' => some (.inl '\x0b')
  | 'f' => some (.inl '\x0c')
  | 'r' => some (.inl '\r')
  | 'e' => some (.inl '\x1b')
  | ' ' => some (.inl ' ')
  | '"' => some (.inl '"')
  | '/' => some (.inl '/')
  | '\\' => some (.inl '\\')
  | 'N' => some (.inl '\u0085')
  | '_' => some (.inl '\u00a0')
  | 'L' => some (.inl '\u2028')
  | 'P' => some (.inl '\u2029')
  | 'x' => some (.inr 2)
  | 'u' => some (.inr 4)
  | 'U' => some (.inr 8)
  | _ => none

/-- Reads a quoted scalar after its opening quote. -/
def quotedFrom (single : Bool) (text : Text) (index line column : Nat) :
    QuotedState → Text → Except Problem ScalarEnd
  | _, [] => .error .unterminated
  | .escape, c :: r =>
    if isBreak c then
      quotedFrom single text (index + 1) (line + 1) 0 (.gap { broken := true }) r
    else match escaped? c with
      | none => .error .escape
      | some (.inl d) => quotedFrom single (d :: text) (index + 1) line (column + 1) .word r
      | some (.inr n) => quotedFrom single text (index + 1) line (column + 1) (.hex n 0) r
  | .hex left value, c :: r =>
    match hexDigit? c with
    | none => .error .escape
    | some d =>
      let value := value * 16 + d
      if left ≤ 1 then
        match scalarValue? value with
        | none => .error .escape
        | some d => quotedFrom single (d :: text) (index + 1) line (column + 1) .word r
      else quotedFrom single text (index + 1) line (column + 1) (.hex (left - 1) value) r
  | state, c :: r =>
    let (g, fresh) := match state with
      | .gap g => (g, true)
      | _ => ({}, false)
    if isBreak c then quotedFrom single text (index + 1) (line + 1) 0 (.gap (g.add c)) r
    else if isBlankChar c then
      quotedFrom single text (index + 1) line (column + 1) (.gap (g.add c)) r
    else if fresh && Cursor.atDocumentMark ⟨index, line, column, c :: r⟩ then .error .documentMark
    else
      let text := g.folded ++ text
      if single && c == '\'' then
        match r with
        | '\'' :: r => quotedFrom single ('\'' :: text) (index + 2) line (column + 2) .word r
        | r => .ok ⟨text.reverse, ⟨index + 1, line, column + 1, r⟩, false⟩
      else if !single && c == '"' then .ok ⟨text.reverse, ⟨index + 1, line, column + 1, r⟩, false⟩
      else if !single && c == '\\' then
        quotedFrom single text (index + 1) line (column + 1) .escape r
      else quotedFrom single (c :: text) (index + 1) line (column + 1) .word r

/-- Reads a quoted scalar from its opening quote on. -/
def quoted (single : Bool) (c : Cursor) : Except Problem ScalarEnd :=
  let c := c.move 1
  quotedFrom single [] c.index c.line c.column (.gap {}) c.rest

/-- What becomes of the breaks at the end of a block scalar. -/
inductive Chomping
  | strip
  | clip
  | keep
  deriving DecidableEq

/-- The state inside a block scalar: in the indentation of a line or in its text. The width of the
indentation is zero until the first line that is not empty settles it. -/
structure BlockState where
  width : Nat
  widest : Nat := 0
  text : Text := []
  lead : Option Char := none
  trail : Text := []
  leadBlank : Bool := false
  inLine : Bool := false

namespace BlockState

/-- Ends the line before and starts a new one with a character. -/
def startLine (literal : Bool) (s : BlockState) (c : Char) : BlockState :=
  let blank := isBlankChar c
  let joined :=
    if !literal && s.lead == some '\n' && !s.leadBlank && !blank then
      if s.trail.isEmpty then ' ' :: s.text else s.trail ++ s.text
    else s.trail ++ (s.lead.toList ++ s.text)
  { s with text := c :: joined, lead := none, trail := [], leadBlank := blank, inLine := true }

/-- The text with its last breaks chomped. -/
def finish (s : BlockState) : Chomping → Text
  | .strip => s.text.reverse
  | .clip => (s.lead.toList ++ s.text).reverse
  | .keep => (s.trail ++ (s.lead.toList ++ s.text)).reverse

end BlockState

/-- Reads the lines of a block scalar whose parent is indented by `parent` minus one. -/
def blockLinesFrom (literal : Bool) (chomping : Chomping) (parent : Nat) (s : BlockState)
    (index line column : Nat) : Text → Except Problem ScalarEnd
  | [] => .ok ⟨s.finish chomping, ⟨index, line, column, []⟩, false⟩
  | c :: r =>
    if s.inLine then
      if isBreak c then
        blockLinesFrom literal chomping parent { s with lead := some c, inLine := false }
          (index + 1) (line + 1) 0 r
      else
        blockLinesFrom literal chomping parent { s with text := c :: s.text }
          (index + 1) line (column + 1) r
    else
      let shallow := s.width == 0 || column < s.width
      if shallow && c == ' ' then
        blockLinesFrom literal chomping parent s (index + 1) line (column + 1) r
      else
        let widest := max s.widest column
        if shallow && c == '\t' then .error .tab
        else if isBreak c then
          blockLinesFrom literal chomping parent { s with widest, trail := c :: s.trail }
            (index + 1) (line + 1) 0 r
        else
          let width := if s.width = 0 then max widest (max parent 1) else s.width
          if column = width then
            blockLinesFrom literal chomping parent
              (BlockState.startLine literal { s with width, widest } c)
              (index + 1) line (column + 1) r
          else .ok ⟨s.finish chomping, ⟨index, line, column, c :: r⟩, false⟩

/-- The chomping and the indentation that a header's characters ask for. -/
def blockHeader? : Text → Except Problem (Chomping × Nat × Nat)
  | c :: d :: _ =>
    match chomping? c with
    | some chomping =>
      if d.isDigit then
        if d = '0' then .error .blockHeader else .ok (chomping, d.toNat - '0'.toNat, 2)
      else .ok (chomping, 0, 1)
    | none =>
      if c.isDigit then
        if c = '0' then .error .blockHeader
        else match chomping? d with
          | some chomping => .ok (chomping, c.toNat - '0'.toNat, 2)
          | none => .ok (.clip, c.toNat - '0'.toNat, 1)
      else .ok (.clip, 0, 0)
  | [c] =>
    match chomping? c with
    | some chomping => .ok (chomping, 0, 1)
    | none =>
      if c.isDigit then
        if c = '0' then .error .blockHeader else .ok (.clip, c.toNat - '0'.toNat, 1)
      else .ok (.clip, 0, 0)
  | [] => .ok (.clip, 0, 0)
where
  chomping? (c : Char) : Option Chomping :=
    if c = '+' then some .keep else if c = '-' then some .strip else none

/-- Moves over blanks and a comment to the end of the line. -/
def toLineEnd? (c : Cursor) : Option Cursor :=
  let c := c.moveWhile isBlankChar
  let c := if c.rest.head? == some '#' then c.moveWhile (!isBreak ·) else c
  match c.rest with
  | [] => some c
  | ch :: _ => if isBreak ch then some c else none

/-- Reads a block scalar from its indicator on. -/
def block (literal : Bool) (parent : Nat) (c : Cursor) : Except Problem ScalarEnd := do
  let c := c.move 1
  let (chomping, increment, n) ← blockHeader? c.rest
  match toLineEnd? (c.move n) with
  | none => .error .blockHeader
  | some c =>
    let c := c.step
    let width :=
      if increment = 0 then 0 else if parent = 0 then increment else parent - 1 + increment
    blockLinesFrom literal chomping parent { width } c.index c.line c.column c.rest

end FencedCode.Yaml
