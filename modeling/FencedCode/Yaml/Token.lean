import FencedCode.Text.Numeral
import FencedCode.Text.Utf8

/-! The tokens of YAML, and the places and characters they are made of. -/
namespace FencedCode.Yaml

/-- What makes a text no YAML document. -/
inductive Problem
  | character
  | tokenStart
  | missingColon
  | misplacedEntry
  | misplacedKey
  | misplacedValue
  | directive
  | anchor
  | tag
  | blockHeader
  | tab
  | unterminated
  | escape
  | documentMark
  | flowColon
  | documentStart
  | version
  | repeatedDirective
  | nodeContent
  | sequenceEntry
  | mappingKey
  | separator
  | unknownAlias
  | secondDocument
  | scalarType
  | repeatedKey
  | depth
  | expansion
  deriving DecidableEq

def Problem.message : Problem → String
  | .character => "control characters are not allowed"
  | .tokenStart => "found a character that cannot start any token"
  | .missingColon => "could not find the ':' of a key"
  | .misplacedEntry => "block sequence entries are not allowed here"
  | .misplacedKey => "mapping keys are not allowed here"
  | .misplacedValue => "mapping values are not allowed here"
  | .directive => "malformed directive"
  | .anchor => "malformed anchor or alias"
  | .tag => "malformed tag"
  | .blockHeader => "malformed block scalar header"
  | .tab => "found a tab in an indentation"
  | .unterminated => "unterminated quoted scalar"
  | .escape => "malformed escape sequence"
  | .documentMark => "found a document mark in a quoted scalar"
  | .flowColon => "found an unexpected ':'"
  | .documentStart => "did not find the start of a document"
  | .version => "incompatible YAML version"
  | .repeatedDirective => "repeated directive"
  | .nodeContent => "did not find the content of a node"
  | .sequenceEntry => "did not find an entry of a block sequence"
  | .mappingKey => "did not find a key of a block mapping"
  | .separator => "did not find a ',' or a closing bracket"
  | .unknownAlias => "unknown anchor"
  | .secondDocument => "more than one document"
  | .scalarType => "a scalar does not fit its type"
  | .repeatedKey => "repeated key"
  | .depth => "nested too deeply"
  | .expansion => "too many aliases"

def isBlankChar (c : Char) : Bool := c == ' ' || c == '\t'

/-- Line breaks, once all breaks that end a line in a file are written as line feeds. -/
def isBreak (c : Char) : Bool := c == '\n' || c == '\u2028' || c == '\u2029'

/-- Whether a text is at its end or goes on with a blank or a break. -/
def isGap : Text → Bool
  | [] => true
  | c :: _ => isBlankChar c || isBreak c

/-- The characters of names: ASCII letters, digits, underscores and hyphens. -/
def isNameChar (c : Char) : Bool := c.isAlphanum || c == '_' || c == '-'

/-- The characters that a document may hold. -/
def isAllowed (c : Char) : Bool :=
  let n := c.toNat
  n == 0x9 || n == 0xa || n == 0xd || (0x20 ≤ n && n ≤ 0x7e) || n == 0x85 ||
    (0xa0 ≤ n && n ≤ 0xd7ff) || (0xe000 ≤ n && n ≤ 0xfffd) || 0x10000 ≤ n

/-- Writes carriage returns, next line characters, and carriage returns before line feeds as line
feeds. -/
def unifyBreaks : Text → Text
  | [] => []
  | '\r' :: '\n' :: r => '\n' :: unifyBreaks r
  | c :: r => (if c = '\r' || c = '\u0085' then '\n' else c) :: unifyBreaks r

/-- A place in a document, and the text from there on. -/
structure Cursor where
  index : Nat := 0
  line : Nat := 0
  column : Nat := 0
  rest : Text
  deriving DecidableEq

namespace Cursor

/-- Moves over some characters of the line. -/
def move (c : Cursor) (n : Nat) : Cursor :=
  { c with index := c.index + n, column := c.column + n, rest := c.rest.drop n }

/-- Moves over the longest run of characters of a class within the line. -/
def moveWhile (c : Cursor) (p : Char → Bool) : Cursor :=
  let n := (c.rest.takeWhile p).length
  { c with index := c.index + n, column := c.column + n, rest := c.rest.dropWhile p }

/-- Moves over one character that may be a break. -/
def step (c : Cursor) : Cursor :=
  match c.rest with
  | [] => c
  | ch :: r =>
    if isBreak ch then { index := c.index + 1, line := c.line + 1, column := 0, rest := r }
    else { c with index := c.index + 1, column := c.column + 1, rest := r }

/-- Whether a line starts here with three of the same character and then a gap. -/
def atMark (c : Cursor) (ch : Char) : Bool :=
  c.column == 0 && (match [ch, ch, ch].isPrefixOf? c.rest with
    | some r => isGap r
    | none => false)

def atDocumentMark (c : Cursor) : Bool := c.atMark '-' || c.atMark '.'

end Cursor

inductive ScalarStyle
  | plain
  | quoted
  | block
  deriving DecidableEq

inductive Token
  | version (major minor : Nat)
  | tagDirective (handle : Text) (tagPrefix : Bytes)
  | documentStart
  | documentEnd
  | blockSequenceStart
  | blockMappingStart
  | blockEnd
  | flowSequenceStart
  | flowSequenceEnd
  | flowMappingStart
  | flowMappingEnd
  | blockEntry
  | flowEntry
  | key
  | value
  | alias (name : Text)
  | anchor (name : Text)
  | tag (handle : Text) (suffix : Bytes)
  | scalar (style : ScalarStyle) (text : Text)
  deriving DecidableEq

end FencedCode.Yaml
