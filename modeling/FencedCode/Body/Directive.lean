import FencedCode.Body.Tags
import FencedCode.Fence
import FencedCode.Text.Word

/-! The kinds of lines in a block's body: shell commands, magics, cell options, tags and source. -/
namespace FencedCode

inductive LineKind
  | source
  | command
  | lineMagic
  | cellMagic
  | tags
  | cellOption
  | frozen
  deriving DecidableEq

namespace LineKind

/-- An artifact is kept out of the formatter's sight. -/
def isArtifact (k : LineKind) : Bool := k != .source

/-- Verbatim artifacts keep even the space at their end. -/
def isVerbatim (k : LineKind) : Bool := k == .cellMagic || k == .frozen

end LineKind

/-- A line that begins like a magic and is none. -/
structure MagicError where
  line : Text
  reason : String
  deriving DecidableEq

def MagicError.message (e : MagicError) : String :=
  s!"malformed magic directive: {e.reason} in {e.line.quoted}"

/-- A letter or underscore, and then letters, digits, underscores and dots. -/
def isMagicName : Text → Bool
  | [] => false
  | c :: r => (c.isAlpha || c == '_') && r.all fun c => c.isAlphanum || c == '_' || c == '.'

/-- The word after the two signs of a cell magic. -/
def magicName (trimmed : Text) : Text :=
  ((trimmed.drop 2).dropWhile isPadding).takeWhile (!isBlank ·)

/-- One sign begins a line magic, two and a name a cell magic. -/
def classifyMagic (line trimmed : Text) : Except MagicError LineKind :=
  match (trimmed.takeWhile (· == '%')).length with
  | 1 => .ok .lineMagic
  | 2 =>
    if isMagicName (magicName trimmed) then .ok .cellMagic
    else .error ⟨line, "expected a cell magic name after '%%'"⟩
  | n => .error ⟨line, s!"{n} leading '%' characters, at most two are allowed"⟩

/-- An option is a name between colons, followed by white space or nothing. -/
def isCellOption : Text → Bool
  | ':' :: c :: r =>
    c.isAlpha &&
      match r.dropWhile fun c => isWordChar c || c == '-' with
      | [':'] => true
      | ':' :: c :: _ => isBlank c
      | _ => false
  | _ => false

/-- The kind of a line by its first characters. Tags and options exist in cells only. -/
def classifyLine (kind : BlockKind) (line : Text) : Except MagicError LineKind :=
  let trimmed := line.trimStart
  match trimmed with
  | '!' :: _ => .ok .command
  | '%' :: _ => classifyMagic line trimmed
  | _ =>
    if kind = .cell && Tags.isTagLine trimmed then .ok .tags
    else if kind = .cell && isCellOption trimmed then .ok .cellOption
    else .ok .source

end FencedCode
