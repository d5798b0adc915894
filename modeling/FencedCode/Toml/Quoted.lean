import FencedCode.Toml.Value

/-! The strings of TOML: on one line or several, with escape sequences or without. -/
namespace FencedCode.Toml

/-- Where the reading of a string is: among its characters, in an escape sequence, or in a gap
after a backslash that joins lines. -/
inductive QuotedState
  | plain
  | escape
  | hex (left value : Nat)
  | toLineEnd
  | joined
  deriving DecidableEq

/-- The character that a backslash and a letter stand for. -/
def escaped? (c : Char) : Option Char :=
  match c with
  | 'b' => some '\x08'
  | 't' => some '\t'
  | 'n' => some '\n'
  | 'f' => some '\x0c'
  | 'r' => some '\r'
  | '"' => some '"'
  | '\\' => some '\\'
  | _ => none

/-- Reads a string after its opening quotes. `done` is its text so far in reverse. On several lines
up to two quotes may stand together inside, and as many before the closing ones. -/
def quotedFrom (quote : Char) (lines : Bool) (done : Text) :
    QuotedState → Text → Except Problem (Text × Text)
  | _, [] => .error .unterminated
  | .escape, c :: r =>
    match escaped? c with
    | some d => quotedFrom quote lines (d :: done) .plain r
    | none =>
      if c = 'u' then quotedFrom quote lines done (.hex 4 0) r
      else if c = 'U' then quotedFrom quote lines done (.hex 8 0) r
      else if lines && c == '\n' then quotedFrom quote lines done .joined r
      else if lines && (isBlankChar c || (c == '\r' && r.head? == some '\n')) then
        quotedFrom quote lines done .toLineEnd r
      else .error .escape
  | .hex left value, c :: r =>
    match hexDigit? c with
    | none => .error .escape
    | some d =>
      let value := value * 16 + d
      if left ≤ 1 then
        match scalarValue? value with
        | none => .error .escape
        | some d => quotedFrom quote lines (d :: done) .plain r
      else quotedFrom quote lines done (.hex (left - 1) value) r
  | state, c :: r =>
    if lines && c == '\r' && r.head? == some '\n' then quotedFrom quote lines done state r
    else if lines && c == '\n' then
      if state = .plain then quotedFrom quote lines (c :: done) .plain r
      else quotedFrom quote lines done .joined r
    else if state ≠ .plain && isBlankChar c then quotedFrom quote lines done state r
    else if state = .toLineEnd then .error .escape
    else if c = quote then
      if lines then
        let n := ((c :: r).takeWhile (· == quote)).length
        if n < 3 then quotedFrom quote lines (c :: done) .plain r
        else
          let n := min n 5
          .ok (done.reverse ++ List.replicate (n - 3) quote, (c :: r).drop n)
      else .ok (done.reverse, r)
    else if c = '\\' ∧ quote = '"' then quotedFrom quote lines done .escape r
    else if isPlainChar c then quotedFrom quote lines (c :: done) .plain r
    else .error .character

/-- A break right after the opening quotes does not count. -/
def dropFirstBreak : Text → Text
  | '\n' :: r => r
  | '\r' :: '\n' :: r => r
  | t => t

/-- Reads a string on one line. -/
def lineString (quote : Char) (t : Text) : Except Problem (Text × Text) :=
  quotedFrom quote false [] .plain t

/-- Reads any string from its first quote on. -/
def string (t : Text) : Except Problem (Text × Text) :=
  match t with
  | '"' :: '"' :: '"' :: r => quotedFrom '"' true [] .plain (dropFirstBreak r)
  | '"' :: r => lineString '"' r
  | '\'' :: '\'' :: '\'' :: r => quotedFrom '\'' true [] .plain (dropFirstBreak r)
  | '\'' :: r => lineString '\'' r
  | _ => .error .value

end FencedCode.Toml
