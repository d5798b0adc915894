import FencedCode.Block
import FencedCode.Body.Directive
import FencedCode.Body.Header
import FencedCode.Format.Options

/-! Classified bodies: each line of a block with its kind, and the tags of the block. -/
namespace FencedCode

/-- Why a block is left as it is. -/
inductive BlockFault
  | tags (e : TagError)
  | magic (e : MagicError)
  | options (e : HeaderError)
  | format (e : FormatError)
  deriving DecidableEq

namespace BlockFault

def message : BlockFault → String
  | .tags e => e.message
  | .magic e => e.message
  | .options e => e.message
  | .format e => e.message

def isUnparsable : BlockFault → Bool
  | .format (.unparsable ..) => true
  | _ => false

end BlockFault

/-- A line of a body: as it stands in the document, and without the block's indentation. -/
structure BodyLine where
  kind : LineKind
  raw : Text
  text : Text
  ending : Ending
  deriving DecidableEq

namespace BodyLine

/-- What is left of an artifact in the output. -/
def preserved (l : BodyLine) : Text := if l.kind.isVerbatim then l.raw else l.raw.trimPadding

def isBlank (l : BodyLine) : Bool := l.text.isAllBlank

/-- The line as it was, with its ending. -/
def verbatim (l : BodyLine) : Text := l.raw ++ l.ending.text

end BodyLine

/-- How far the reading of a body has come. Short options stand before the first line of any other
kind, and a cell magic freezes all that follows it. -/
inductive Phase
  | first
  | header (lines : List Text)
  | options
  | code
  | frozen
  deriving DecidableEq

namespace Phase

def initial : BlockKind → Phase
  | .cell => .first
  | .plain => .code

/-- The kind of a line that stands outside a header, and the phase after it. -/
def ofKind (inOptions : Bool) : LineKind → LineKind × Phase
  | .cellOption => if inOptions then (.cellOption, .options) else (.source, .code)
  | .tags => (.tags, if inOptions then .options else .code)
  | .cellMagic => (.cellMagic, .frozen)
  | k => (k, .code)

/-- The kind of the next line and the phase after it. -/
def step (rule : HeaderRule) (kind : BlockKind) (phase : Phase) (text : Text) :
    Except BlockFault (LineKind × Phase) :=
  let directive (inOptions : Bool) : Except BlockFault (LineKind × Phase) :=
    match classifyLine kind text with
    | .ok k => .ok (ofKind inOptions k)
    | .error e => .error (.magic e)
  match phase with
  | .first =>
    if Header.isDelimiter text then .ok (.cellOption, .header []) else directive true
  | .header lines =>
    if Header.isDelimiter text then
      match Header.check rule lines with
      | .ok () => .ok (.cellOption, .options)
      | .error e => .error (.options e)
    else .ok (.cellOption, .header (lines ++ [text]))
  | .options => directive true
  | .code => directive false
  | .frozen => .ok (.frozen, .frozen)

end Phase

/-- The tags of a line of the given kind. -/
def lineTags (kind : LineKind) (text : Text) : Except BlockFault (Option (List Text)) :=
  match kind with
  | .tags =>
    match Tags.parse text with
    | .ok tags => .ok (some tags)
    | .error e => .error (.tags e)
  | _ => .ok none

/-- The union of two tag lists in the order of first occurrence. -/
def unionTags : Option (List Text) → Option (List Text) → Option (List Text)
  | none, b => b
  | some a, none => some a
  | some a, some b => some (a ++ b).eraseDups

structure Body where
  lines : List BodyLine
  tags : Option (List Text)
  deriving DecidableEq

namespace Body

/-- Classifies the lines from a phase on. The first faulty line decides the fault. -/
def classifyFrom (rule : HeaderRule) (kind : BlockKind) (indent : Text) :
    Phase → List Line → Except BlockFault Body
  | .header _, [] => .error (.options .unterminated)
  | _, [] => .ok ⟨[], none⟩
  | phase, l :: ls => do
    let text := Text.stripIndent indent l.content
    let (lineKind, next) ← phase.step rule kind text
    let tags ← lineTags lineKind text
    let rest ← classifyFrom rule kind indent next ls
    .ok ⟨⟨lineKind, l.content, text, l.ending⟩ :: rest.lines, unionTags tags rest.tags⟩

def classify (rule : HeaderRule) (kind : BlockKind) (indent : Text) (ls : List Line) :
    Except BlockFault Body :=
  classifyFrom rule kind indent (.initial kind) ls

end Body

end FencedCode
