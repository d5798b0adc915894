import FencedCode.Format.Formatter
import FencedCode.Text.Line

/-! A small formatter for Python-like code. It settles the space around commas, brackets and
comments, prefers double quotes, breaks calls that are too long, keeps at most two blank lines
together, and rejects brackets that do not match. -/
namespace FencedCode.Tidy

def isQuote (c : Char) : Bool := c == '\'' || c == '"'

def isOpening (c : Char) : Bool := c == '(' || c == '[' || c == '\x7b'

/-- The bracket that a closing one needs. -/
def partner? (c : Char) : Option Char :=
  if c = ')' then some '('
  else if c = ']' then some '['
  else if c = '\x7d' then some '\x7b'
  else none

def isClosing (c : Char) : Bool := (partner? c).isSome

/-- The place of a character: in code, or in a string, where a backslash may have come just
before it. -/
inductive Mode
  | code
  | string (quote : Char) (escaped : Bool)
  deriving DecidableEq

/-- The mode after a character of a string. -/
def Mode.inString (quote : Char) (escaped : Bool) (c : Char) : Mode :=
  if escaped then .string quote false
  else if c = '\\' then .string quote true
  else if c = quote then .code
  else .string quote false

/-- A bracket that is open, with its line and column. -/
structure OpenBracket where
  bracket : Char
  line : Nat
  column : Nat
  deriving DecidableEq

/-- Follows the brackets of a line from column `col` on; the innermost open bracket comes first.
Strings end on their line, and a comment ends the line. -/
def scanLine (line : Nat) : Nat → Mode → List OpenBracket → Text →
    Except FormatError (List OpenBracket)
  | _, .code, stack, [] => .ok stack
  | col, .string _ _, _, [] => .error (.unparsable line col "unterminated string literal")
  | col, .string q escaped, stack, c :: r =>
    scanLine line (col + 1) (Mode.inString q escaped c) stack r
  | col, .code, stack, c :: r =>
    if c = '#' then .ok stack
    else if isQuote c then scanLine line (col + 1) (.string c false) stack r
    else if isOpening c then scanLine line (col + 1) .code (⟨c, line, col + 1⟩ :: stack) r
    else match partner? c with
      | none => scanLine line (col + 1) .code stack r
      | some o =>
        match stack with
        | ⟨b, _, _⟩ :: stack =>
          if b = o then scanLine line (col + 1) .code stack r
          else .error (.unparsable line (col + 1) s!"unmatched '{c}'")
        | [] => .error (.unparsable line (col + 1) s!"unmatched '{c}'")

/-- A logical line: a line and those that continue it inside brackets. -/
structure Statement where
  indent : Text
  text : Text
  deriving DecidableEq

namespace Statement

def ofLine (line : Text) : Statement := ⟨line.takeWhile isBlank, line.trim⟩

def extend (s : Statement) (line : Text) : Statement :=
  { s with text := s.text ++ ' ' :: line.trim }

end Statement

/-- Joins lines into statements. `n` is the number of the first line, and `current` the statement
that the brackets of the stack keep open. -/
def statementsFrom (n : Nat) (stack : List OpenBracket) (current : Option Statement) :
    List Text → Except FormatError (List Statement)
  | [] =>
    match stack.getLast? with
    | some o => .error (.unparsable o.line o.column s!"'{o.bracket}' was never closed")
    | none => .ok []
  | line :: rest => do
    let stack ← scanLine n 0 .code stack line
    let statement := match current with
      | some s => s.extend line
      | none => .ofLine line
    if stack.isEmpty then
      let more ← statementsFrom (n + 1) [] none rest
      .ok (statement :: more)
    else statementsFrom (n + 1) stack (some statement) rest

def statements (source : Text) : Except FormatError (List Statement) :=
  statementsFrom 1 [] none source.lines

/-- Splits off a comment that starts outside strings; `code` holds what comes before in reverse. -/
def splitCommentFrom (code : Text) : Mode → Text → Text × Option Text
  | _, [] => (code.reverse, none)
  | .string q escaped, c :: r => splitCommentFrom (c :: code) (Mode.inString q escaped c) r
  | .code, c :: r =>
    if c = '#' then (code.reverse, some (c :: r))
    else splitCommentFrom (c :: code) (if isQuote c then .string c false else .code) r

def splitComment (t : Text) : Text × Option Text := splitCommentFrom [] .code t

/-- A literal in double quotes, if it is in single ones and nothing inside has to change. -/
def requote (literal : Text) : Text :=
  match literal with
  | '\'' :: r =>
    match r.reverse with
    | '\'' :: inner =>
      if inner.elem '"' || inner.elem '\\' then literal else '"' :: inner.reverse ++ ['"']
    | _ => literal
  | _ => literal

/-- Ends a reversed line with a space if one is due there. -/
def addSpace (out : Text) (due : Bool) : Text :=
  match out with
  | [] => []
  | c :: _ => if due && !isOpening c then ' ' :: out else out

/-- The state between two characters: in code, or in a literal of which the characters so far are
kept in reverse. -/
inductive Reading
  | code
  | literal (quote : Char) (escaped : Bool) (read : Text)
  deriving DecidableEq

/-- Settles space and quotes. `out` is the result in reverse, and `due` whether a space belongs
before the next word. -/
def settleFrom (normalize : Bool) (out : Text) (due : Bool) : Reading → Text → Text
  | .code, [] => out.reverse
  | .literal _ _ read, [] => (addLiteral out due read.reverse).reverse
  | .literal q escaped read, c :: r =>
    if c = q && !escaped then
      settleFrom normalize (addLiteral out due (c :: read).reverse) false .code r
    else settleFrom normalize out due (.literal q (c == '\\' && !escaped) (c :: read)) r
  | .code, c :: r =>
    if isQuote c then settleFrom normalize out due (.literal c false [c]) r
    else if c = ',' then settleFrom normalize (c :: out) true .code r
    else if isClosing c then settleFrom normalize (c :: out) false .code r
    else if isBlank c then settleFrom normalize out true .code r
    else settleFrom normalize (c :: addSpace out due) false .code r
where
  addLiteral (out : Text) (due : Bool) (literal : Text) : Text :=
    (if normalize then requote literal else literal).reverse ++ addSpace out due

def settle (normalize : Bool) (code : Text) : Text := settleFrom normalize [] false .code code

/-- The arguments of a call up to its closing bracket, which has to be the last character. `depth`
counts the brackets open inside the call, and `arg` is the current argument in reverse. -/
def argumentsFrom (depth : Nat) (quote : Option Char) (arg : Text) : Text → Option (List Text)
  | [] => some []
  | c :: r =>
    match quote with
    | some q => argumentsFrom depth (if c = q then none else some q) (c :: arg) r
    | none =>
      if isQuote c then argumentsFrom depth (some c) (c :: arg) r
      else if isOpening c then argumentsFrom (depth + 1) none (c :: arg) r
      else if isClosing c then
        match depth with
        | 0 => if r.isEmpty then some [Text.trim arg.reverse] else none
        | depth + 1 => argumentsFrom depth none (c :: arg) r
      else if c = ',' && depth == 0 then
        (argumentsFrom 0 none [] r).map (Text.trim arg.reverse :: ·)
      else argumentsFrom depth none (c :: arg) r

/-- Splits a call that makes up the whole code into its head and its arguments. -/
def explode (code : Text) : Option (Text × List Text) :=
  let head := code.takeWhile (· != '(')
  match code.dropWhile (· != '(') with
  | [] => none
  | _ :: r =>
    if head.isEmpty || code.getLast? != some ')' then none
    else match argumentsFrom 0 none [] r with
      | none => none
      | some args =>
        let args := args.filter (!·.isEmpty)
        if args.isEmpty then none else some (head, args)

/-- A comment with one sign and one space before its text. -/
def tidyComment (comment : Text) : Text :=
  let body := Text.trim (comment.dropWhile (· == '#'))
  if body.isEmpty then ['#'] else '#' :: ' ' :: body

/-- The lines of a statement: one, or for a call that is too long one for each argument. -/
def render (options : FormatOptions) (s : Statement) : List Text :=
  let (code, comment) := splitComment s.text
  let code := settle options.stringNormalization code
  match comment with
  | some comment =>
    let comment := tidyComment comment
    if code.isEmpty then [s.indent ++ comment] else [s.indent ++ code ++ [' ', ' '] ++ comment]
  | none =>
    let line := s.indent ++ code
    if options.lineLength < line.length then
      match explode code with
      | some (head, args) =>
        (s.indent ++ head ++ ['(']) ::
          (args.map fun arg => s.indent ++ [' ', ' ', ' ', ' '] ++ arg ++ [',']) ++
          [s.indent ++ [')']]
      | none => [line]
    else [line]

/-- Adds a statement below lines that are kept last first. A blank one is dropped at the top and
after two others. -/
def addStatement (options : FormatOptions) (lines : List Text) (s : Statement) : List Text :=
  if s.text.isEmpty then
    if lines.isEmpty || 2 ≤ (lines.takeWhile List.isEmpty).length then lines else [] :: lines
  else (render options s).reverse ++ lines

/-- The lines of all statements, without blank ones at the end. -/
def layout (options : FormatOptions) (ss : List Statement) : List Text :=
  ((ss.foldl (addStatement options) []).dropWhile List.isEmpty).reverse

def format (source : Text) (options : FormatOptions) : Except FormatError Text :=
  (statements source).map fun ss => (layout options ss).flatMap (· ++ ['\n'])

/-- The formatter as one for whole sources. -/
def formatter : Formatter Unit := .pure format

end FencedCode.Tidy
