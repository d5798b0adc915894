import FencedCode.Yaml.Value

/-! The option header of a cell: the lines between two `---` lines at the start of its body. -/
namespace FencedCode

inductive HeaderError
  | unterminated
  | notMapping
  | malformed (reason : String)
  deriving DecidableEq

namespace HeaderError

def reason : HeaderError → String
  | .unterminated => "unterminated '---' option header"
  | .notMapping => "option header must be a mapping"
  | .malformed reason => reason

def message (e : HeaderError) : String := s!"invalid cell options: {e.reason}"

end HeaderError

/-- What decides whether the text of a header is acceptable. -/
abbrev HeaderRule := Text → Except HeaderError Unit

namespace Header

/-- A delimiter may have white space at its end, and none at its start. -/
def isDelimiter (t : Text) : Bool := t.trimEnd == ['-', '-', '-']

/-- A header's lines, each ended by a line feed. -/
def text (lines : List Text) : Text := lines.flatMap (· ++ ['\n'])

/-- A blank header is acceptable under every rule. -/
def check (rule : HeaderRule) (lines : List Text) : Except HeaderError Unit :=
  if (text lines).isAllBlank then .ok () else rule (text lines)

/-- A header is a mapping in YAML. -/
def rule : HeaderRule := fun t =>
  match Yaml.parse t with
  | .error e => .error (.malformed e.message)
  | .ok v => if v.isMapping then .ok () else .error .notMapping

end Header

end FencedCode
