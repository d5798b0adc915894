import FencedCode.Document.Event
import FencedCode.Format.Formatter

/-! Formatting of one block: its body is split into artifacts and maximal runs of source lines, and
every run is formatted on its own. -/
namespace FencedCode

inductive Segment
  | artifact (l : BodyLine)
  | source (first : Nat) (run : List BodyLine)
  deriving DecidableEq

/-- The segments of a body whose first line has index `i`. A source segment starts with its index
in the body. -/
def segmentsFrom (i : Nat) : List BodyLine → List Segment
  | [] => []
  | l :: ls =>
    if l.kind.isArtifact then .artifact l :: segmentsFrom (i + 1) ls
    else match segmentsFrom (i + 1) ls with
      | .source _ run :: rest => .source i (l :: run) :: rest
      | rest => .source i [l] :: rest

def segments (ls : List BodyLine) : List Segment := segmentsFrom 0 ls

/-- A run of source lines, cut where its code starts and ends. The blank lines around the code part
it from its neighbours and are not for the formatter. -/
structure Run where
  leading : List BodyLine
  code : List BodyLine
  trailing : List BodyLine
  deriving DecidableEq

namespace Run

def ofLines (ls : List BodyLine) : Run :=
  let rest := (ls.dropWhile BodyLine.isBlank).reverse
  ⟨ls.takeWhile BodyLine.isBlank, (rest.dropWhile BodyLine.isBlank).reverse,
    (rest.takeWhile BodyLine.isBlank).reverse⟩

/-- The text that the formatter is given. -/
def source (r : Run) : Text := r.code.flatMap (·.text ++ ['\n'])

/-- The run around a formatter's answer. The answer's lines are indented like the block, its blank
ones emptied. -/
def wrap (r : Run) (indent : Text) (newline : Ending) (answer : Text) : Text :=
  r.leading.flatMap BodyLine.verbatim ++
    answer.lines.flatMap
      (fun l => (if l.isAllBlank then [] else indent ++ l) ++ newline.text) ++
    r.trailing.flatMap BodyLine.verbatim

end Run

/-- The outcome of a step that may call a formatter: its result, what happened, and the state the
formatter is left in. -/
structure Attempt (σ α : Type) where
  result : Except BlockError α
  events : List Event
  state : σ

namespace Block

/-- The error of a formatter on code whose first line has an index in the body. The line that the
formatter names may be any word, so that its place in the document wraps around. -/
def formatError (b : Block) (first : Nat) (e : FormatError) : BlockError :=
  let err := BlockError.new b.location (.format e)
  match e with
  | .unparsable line column _ =>
    err.withPosition ((b.location.down (wrapWord (1 + first + (line - 1)))).withColumn column)
  | .failed _ => err

variable {σ : Type}

def formatRun (b : Block) (f : Formatter σ) (options : FormatOptions) (newline : Ending)
    (first : Nat) (run : List BodyLine) (s : σ) : Attempt σ Text :=
  let r := Run.ofLines run
  if r.code.isEmpty then ⟨.ok (run.flatMap BodyLine.verbatim), [], s⟩
  else
    let events := .called r.source :: (f.remarks r.source options s).map .remarked
    match f.format r.source options s with
    | (.ok answer, s) => ⟨.ok (r.wrap b.indent newline answer), events, s⟩
    | (.error e, s) => ⟨.error (b.formatError (first + r.leading.length) e), events, s⟩

/-- Formats the segments in order and stops at the first error. -/
def formatSegments (b : Block) (f : Formatter σ) (options : FormatOptions) (newline : Ending) :
    List Segment → σ → Attempt σ Text
  | [], s => ⟨.ok [], [], s⟩
  | .artifact l :: rest, s =>
    let a := b.formatSegments f options newline rest s
    { a with result := a.result.map (l.preserved ++ l.ending.text ++ ·) }
  | .source first run :: rest, s =>
    let a := b.formatRun f options newline first run s
    match a.result with
    | .error e => ⟨.error e, a.events, a.state⟩
    | .ok text =>
      let more := b.formatSegments f options newline rest a.state
      ⟨more.result.map (text ++ ·), a.events ++ more.events, more.state⟩

end Block

structure FormattedBlock where
  body : Text
  changed : Bool
  tags : Option (List Text)
  deriving DecidableEq

/-- The ending that new lines get: that of the first line of the body, if it has one. -/
def newlineOf (ls : List BodyLine) : Ending :=
  match ls.head?.map BodyLine.ending with
  | some .crlf => .crlf
  | _ => .lf

namespace Block

variable {σ : Type}

/-- Formats a block of a document. Nothing is formatted before the whole body is classified. -/
def format (b : Block) (rule : HeaderRule) (f : Formatter σ) (options : FormatOptions)
    (lines : List Line) (s : σ) : Attempt σ FormattedBlock :=
  let old := b.body lines
  match Body.classify rule b.kind b.indent old with
  | .error fault => ⟨.error (.new b.location fault), [], s⟩
  | .ok body =>
    let a := b.formatSegments f options (newlineOf body.lines) (segments body.lines) s
    match a.result with
    | .error e => ⟨.error e, a.events, a.state⟩
    | .ok text =>
      let changed := text != joinLines old
      ⟨.ok ⟨text, changed, body.tags⟩,
        a.events ++ [.formatted (b.fenceLine + 1) b.bodyLength changed], a.state⟩

end Block

end FencedCode
