import FencedCode.Proofs.Closing
import FencedCode.Proofs.Frame
import FencedCode.Proofs.Reading
import FencedCode.Proofs.Results

/-! The lines that a run writes for a document, when the formatter's answers depend on nothing but
the source: the lines outside of bodies as they were, for each body the lines of its segments. -/
namespace FencedCode

variable {σ : Type}

/-- The formatter answers every source in the same way at all times. -/
def Formatter.Answers (f : Formatter σ) (options : FormatOptions)
    (answer : Text → Except FormatError Text) : Prop :=
  ∀ source s, (f.format source options s).1 = answer source

/-- An artifact as it is found after a run. -/
def BodyLine.settled (l : BodyLine) : Line := Line.ofText (l.preserved ++ l.ending.text)

/-- A line of a formatter's answer as it is found after a run. -/
def answerLine (indent : Text) (newline : Ending) (t : Text) : Line :=
  Line.ofText ((if t.isAllBlank then [] else indent ++ t) ++ newline.text)

theorem joinLines_map_line (ls : List BodyLine) :
    joinLines (ls.map BodyLine.line) = ls.flatMap BodyLine.verbatim := by
  rw [joinLines, List.flatMap_map]
  rfl

/-- The lines of a run around a formatter's answer. -/
def Run.written (r : Run) (indent : Text) (newline : Ending) (answer : Text) : List Line :=
  r.leading.map BodyLine.line ++ answer.lines.map (answerLine indent newline) ++
    r.trailing.map BodyLine.line

theorem Run.joinLines_written (r : Run) (indent : Text) (newline : Ending) (answer : Text) :
    joinLines (r.written indent newline answer) = r.wrap indent newline answer := by
  simp only [written, joinLines_append, joinLines_map_line, wrap, List.append_assoc]
  simp [joinLines, answerLine, List.flatMap_map]

section Segments

variable (answer : Text → Except FormatError Text) (indent : Text) (newline : Ending)

/-- The lines that a segment is replaced by. -/
def Segment.written : Segment → Except BlockFault (List Line)
  | .artifact l => .ok [l.settled]
  | .source _ run =>
    if (Run.ofLines run).code.isEmpty then .ok (run.map BodyLine.line)
    else match answer (Run.ofLines run).source with
      | .ok t => .ok ((Run.ofLines run).written indent newline t)
      | .error e => .error (.format e)

def writtenLines : List Segment → Except BlockFault (List Line)
  | [] => .ok []
  | seg :: segs => do
    let ls ← seg.written answer indent newline
    let ms ← writtenLines segs
    .ok (ls ++ ms)

end Segments

/-- The lines that a body is replaced by, if no step of formatting it fails. -/
def Opener.written (rule : HeaderRule) (answer : Text → Except FormatError Text) (o : Opener)
    (body : List Line) : Except BlockFault (List Line) := do
  let c ← Body.classify rule o.kind o.indent body
  writtenLines answer o.indent (newlineOf c.lines) (segments c.lines)

/-- The lines of a body after a run. -/
def Opener.bodyAfter (rule : HeaderRule) (answer : Text → Except FormatError Text)
    (languages : List Text) (o : Opener) (body : List Line) : List Line :=
  if languages.elem o.language then
    match o.written rule answer body with
    | .ok ls => ls
    | .error _ => body
  else body

/-- Why a body is left as it is, if a step of formatting it fails. -/
def Opener.fault? (rule : HeaderRule) (answer : Text → Except FormatError Text)
    (languages : List Text) (o : Opener) (body : List Line) : Option BlockFault :=
  if languages.elem o.language then
    match o.written rule answer body with
    | .ok _ => none
    | .error fault => some fault
  else none

namespace Block

variable {f : Formatter σ} {options : FormatOptions} {answer : Text → Except FormatError Text}

theorem formatRun_written (hf : f.Answers options answer) (b : Block) (newline : Ending)
    (first : Nat) (run : List BodyLine) (s : σ) :
    (b.formatRun f options newline first run s).result.mapError BlockError.fault =
      ((Segment.source first run).written answer b.indent newline).map joinLines := by
  rw [formatRun, Segment.written]
  by_cases hc : (Run.ofLines run).code.isEmpty
  · simp only [hc, if_true, Except.map, joinLines_map_line]
    rfl
  · rw [if_neg hc, if_neg hc, ← hf (Run.ofLines run).source s]
    cases f.format (Run.ofLines run).source options s with
    | mk result state =>
      cases result with
      | ok t =>
        simp only [Except.map, Run.joinLines_written]
        rfl
      | error e => cases e <;> rfl

theorem formatSegments_written (hf : f.Answers options answer) (b : Block) (newline : Ending)
    (segs : List Segment) (s : σ) :
    (b.formatSegments f options newline segs s).result.mapError BlockError.fault =
      (writtenLines answer b.indent newline segs).map joinLines := by
  induction segs generalizing s with
  | nil => rfl
  | cons seg segs ih =>
    rw [Except.mapError_eq_map_iff]
    cases seg with
    | artifact l =>
      rw [formatSegments_artifact_result, writtenLines]
      rcases Except.mapError_eq_map_iff.1 (ih s) with ⟨e, hr, hw⟩ | ⟨ms, hr, hw⟩
      · rw [hr, hw]
        exact .inl ⟨e, rfl, rfl⟩
      · rw [hr, hw]
        refine .inr ⟨l.settled :: ms, ?_, rfl⟩
        rw [joinLines_cons, BodyLine.settled, Line.text_ofText]
        rfl
    | source first run =>
      rw [writtenLines]
      rcases Except.mapError_eq_map_iff.1 (formatRun_written hf b newline first run s) with
        ⟨e, ha, hw⟩ | ⟨ls, ha, hw⟩
      · rw [formatSegments_source_of_error ha, hw]
        exact .inl ⟨e, rfl, rfl⟩
      · rw [(formatSegments_source_of_ok ha segs).1, hw]
        rcases Except.mapError_eq_map_iff.1
            (ih (b.formatRun f options newline first run s).state) with ⟨e, hr, hm⟩ | ⟨ms, hr, hm⟩
        · rw [hr, hm]
          exact .inl ⟨e, rfl, rfl⟩
        · rw [hr, hm]
          refine .inr ⟨ls ++ ms, ?_, rfl⟩
          rw [joinLines_append]
          rfl

/-- Formatting a block either meets the fault that keeps it from being written, or gives the text
of the lines to be written. -/
theorem format_written (hf : f.Answers options answer) (rule : HeaderRule) (lines : List Line)
    (b : Block) (s : σ) :
    (∃ e, (b.format rule f options lines s).result = .error e ∧
        b.opener.written rule answer (b.body lines) = .error e.fault) ∨
      ∃ new ls, (b.format rule f options lines s).result = .ok new ∧
        b.opener.written rule answer (b.body lines) = .ok ls ∧ new.body = joinLines ls := by
  have hw : b.opener.written rule answer (b.body lines) =
      Body.classify rule b.kind b.indent (b.body lines) >>= fun c =>
        writtenLines answer b.indent (newlineOf c.lines) (segments c.lines) := rfl
  rw [format, hw]
  cases Body.classify rule b.kind b.indent (b.body lines) with
  | error fault => exact .inl ⟨_, rfl, rfl⟩
  | ok c =>
    have hs := formatSegments_written hf b (newlineOf c.lines) (segments c.lines) s
    rcases Except.mapError_eq_map_iff.1 hs with ⟨e, hr, hm⟩ | ⟨ls, hr, hm⟩
    · simp only [hr]
      exact .inl ⟨e, rfl, hm⟩
    · simp only [hr]
      exact .inr ⟨_, ls, rfl, hm, rfl⟩

theorem newBody_eq {options : RunOptions} (hf : f.Answers options.format answer)
    (rule : HeaderRule) (lines : List Line) (b : Block) (s : σ) :
    b.newBody rule f options lines s =
      joinLines (b.opener.bodyAfter rule answer options.languages (b.body lines)) := by
  rw [newBody, Opener.bodyAfter]
  change (if options.languages.elem b.opener.language then _ else _) = _
  by_cases hl : options.languages.elem b.opener.language
  · rw [if_pos hl, if_pos hl]
    obtain ⟨e, hr, hw⟩ | ⟨new, ls, hr, hw, hb⟩ := format_written hf rule lines b s
    · rw [hr, hw]
    · rw [hr, hw]
      exact hb
  · rw [if_neg hl, if_neg hl]

theorem map_fault_error? {options : RunOptions} (hf : f.Answers options.format answer)
    (rule : HeaderRule) (lines : List Line) (b : Block) (s : σ) :
    (b.error? rule f options lines s).map BlockError.fault =
      b.opener.fault? rule answer options.languages (b.body lines) := by
  rw [error?, Opener.fault?]
  change Option.map _ (if options.languages.elem b.opener.language then _ else _) = _
  by_cases hl : options.languages.elem b.opener.language
  · rw [if_pos hl, if_pos hl]
    obtain ⟨e, hr, hw⟩ | ⟨new, ls, hr, hw, -⟩ := format_written hf rule lines b s
    · rw [hr, hw, Option.map_some]
    · rw [hr, hw, Option.map_none]
  · rw [if_neg hl, if_neg hl, Option.map_none]

/-- A block fails exactly if there is nothing to replace its body by. -/
theorem not_fails_iff (hf : f.Answers options answer) (rule : HeaderRule) (lines : List Line)
    (b : Block) (s : σ) :
    ¬ b.Fails rule f options lines s ↔
      ∃ ls, b.opener.written rule answer (b.body lines) = .ok ls := by
  obtain ⟨e, hr, hw⟩ | ⟨new, ls, hr, hw, -⟩ := format_written hf rule lines b s <;>
    obtain ⟨hfail, e', hr', -⟩ | ⟨hn, new', hr'⟩ := b.format_result rule f options lines s
  · simp [hfail, hw]
  · rw [hr] at hr'
    contradiction
  · rw [hr] at hr'
    contradiction
  · exact iff_of_true hn ⟨ls, hw⟩

end Block

section Whole

variable {indent : Text} {newline : Ending}

theorem newlineOf_ne_missing (ls : List BodyLine) : newlineOf ls ≠ .missing := by
  rw [newlineOf]
  split <;> simp

theorem newlineOf_cons_of_ended {l : BodyLine} (h : l.ending ≠ .missing) (ls : List BodyLine) :
    newlineOf (l :: ls) = l.ending := by
  cases hl : l.ending with
  | missing => exact absurd hl h
  | lf => simp [newlineOf, hl]
  | crlf => simp [newlineOf, hl]

theorem Run.ofLines_append (ls : List BodyLine) :
    (ofLines ls).leading ++ ((ofLines ls).code ++ (ofLines ls).trailing) = ls := by
  simp only [ofLines]
  rw [← List.reverse_append, List.takeWhile_append_dropWhile, List.reverse_reverse,
    List.takeWhile_append_dropWhile]

theorem Run.source_eq (r : Run) :
    r.source = (r.code.map BodyLine.text).flatMap (· ++ ['\n']) := by
  rw [source, List.flatMap_map]

theorem Run.isBlank_leading {run : List BodyLine} : ∀ l ∈ (ofLines run).leading, l.isBlank :=
  fun _ hl => List.mem_takeWhile_imp hl

theorem Run.isBlank_trailing {run : List BodyLine} : ∀ l ∈ (ofLines run).trailing, l.isBlank :=
  fun _ hl => List.mem_takeWhile_imp (List.mem_reverse.1 hl)

theorem Run.code_eq_nil_iff {run : List BodyLine} :
    (ofLines run).code = [] ↔ ∀ l ∈ run, l.isBlank := by
  constructor
  · intro h
    rw [← ofLines_append run, h, List.nil_append, List.forall_mem_append]
    exact ⟨isBlank_leading, isBlank_trailing⟩
  · intro h
    rw [ofLines, List.dropWhile_eq_nil_iff.2 h]
    rfl

/-- The code of a run starts and ends with lines that are not blank. -/
theorem Run.not_isBlank_code (run : List BodyLine) :
    (∀ l ∈ (ofLines run).code.head?, l.isBlank = false) ∧
      ∀ l ∈ (ofLines run).code.getLast?, l.isBlank = false := by
  have hdrop : ∀ ls : List BodyLine, ∀ l ∈ (ls.dropWhile BodyLine.isBlank).head?,
      l.isBlank = false := by
    intro ls l hl
    have hn := List.head?_dropWhile_not BodyLine.isBlank ls
    rw [Option.mem_def.1 hl] at hn
    simpa using hn
  constructor
  · intro l hl
    have ha : (ofLines run).code ++ (ofLines run).trailing = run.dropWhile BodyLine.isBlank := by
      simp only [ofLines]
      rw [← List.reverse_append, List.takeWhile_append_dropWhile, List.reverse_reverse]
    apply hdrop run
    rw [← ha, List.head?_append, Option.mem_def.1 hl]
    rfl
  · intro l hl
    rw [ofLines, List.getLast?_reverse] at hl
    exact hdrop _ l hl

theorem Run.exists_not_isBlank_code {run : List BodyLine} (h : (ofLines run).code ≠ []) :
    (∃ l ∈ (ofLines run).code.head?, l.isBlank = false) ∧
      ∃ l ∈ (ofLines run).code.getLast?, l.isBlank = false := by
  obtain ⟨hfirst, hlast⟩ := not_isBlank_code run
  have hh := List.head?_eq_some_head h
  have hl := List.getLast?_eq_some_getLast h
  exact ⟨⟨_, hh, hfirst _ hh⟩, ⟨_, hl, hlast _ hl⟩⟩

/-- Code that starts and ends with lines which are not blank is found again between blank lines. -/
theorem Run.ofLines_append_code {leading code trailing : List BodyLine}
    (hl : ∀ l ∈ leading, l.isBlank) (ht : ∀ l ∈ trailing, l.isBlank)
    (hc : code ≠ []) (hf : ∀ l ∈ code.head?, l.isBlank = false)
    (he : ∀ l ∈ code.getLast?, l.isBlank = false) :
    ofLines (leading ++ (code ++ trailing)) = ⟨leading, code, trailing⟩ := by
  obtain ⟨first, rest, hfirst⟩ := List.exists_cons_of_ne_nil hc
  obtain ⟨init, last, hlast⟩ := List.eq_nil_or_concat code |>.resolve_left hc
  have hd : (leading ++ (code ++ trailing)).dropWhile BodyLine.isBlank = code ++ trailing := by
    rw [List.dropWhile_append_of_pos hl, hfirst, List.cons_append, List.dropWhile_cons, if_neg]
    simpa using hf first (by rw [hfirst]; rfl)
  have htake : (leading ++ (code ++ trailing)).takeWhile BodyLine.isBlank = leading := by
    rw [List.takeWhile_append_of_pos hl, hfirst, List.cons_append, List.takeWhile_cons, if_neg,
      List.append_nil]
    simpa using hf first (by rw [hfirst]; rfl)
  have hrev : (code ++ trailing).reverse = trailing.reverse ++ last :: init.reverse := by
    rw [List.reverse_append, hlast]
    simp
  have hlb : last.isBlank = false := he last (by rw [hlast]; simp)
  have htr : ∀ l ∈ trailing.reverse, l.isBlank := fun l hm => ht l (List.mem_reverse.1 hm)
  rw [ofLines, htake, hd, hrev, List.dropWhile_append_of_pos htr,
    List.takeWhile_append_of_pos htr, List.dropWhile_cons, List.takeWhile_cons, hlb]
  simp [hlast]

theorem LineKind.isVerbatim_iff {k : LineKind} : k.isVerbatim ↔ k = .cellMagic ∨ k = .frozen := by
  simp [isVerbatim]

theorem BodyLine.unbroken_text (hi : ∀ c ∈ indent, isPadding c) {l : BodyLine} (h : l.line.Whole)
    (ht : l.text = Text.stripIndent indent l.raw) : '\n' ∉ l.text := by
  rw [ht]
  exact mt (Text.mem_of_mem_stripIndent hi) h.unbroken

theorem BodyLine.unbroken_preserved {l : BodyLine} (h : l.line.Whole) : '\n' ∉ l.preserved := by
  rw [preserved]
  split
  · exact h.unbroken
  · exact mt Text.mem_of_mem_trimPadding h.unbroken

theorem BodyLine.whole_settled {l : BodyLine} (h : l.line.Whole) : l.settled.Whole :=
  Line.whole_ofText (unbroken_preserved h) h.ended

theorem whole_answerLine (hi : ∀ c ∈ indent, isPadding c) (hn : newline ≠ .missing) {t : Text}
    (ht : '\n' ∉ t) : (answerLine indent newline t).Whole := by
  refine Line.whole_ofText ?_ hn
  split
  · simp
  · exact Text.unbroken_append hi ht

variable {answer : Text → Except FormatError Text}

theorem Segment.whole_written (hi : ∀ c ∈ indent, isPadding c) (hn : newline ≠ .missing)
    {seg : Segment} (hs : ∀ l ∈ seg.lines, l.line.Whole) {ls : List Line}
    (h : seg.written answer indent newline = .ok ls) : ∀ l ∈ ls, l.Whole := by
  cases seg with
  | artifact l =>
    obtain rfl := Except.ok.inj h
    simpa using BodyLine.whole_settled (hs l List.mem_cons_self)
  | source first run =>
    have hr : ∀ l ∈ run.map BodyLine.line, l.Whole := List.forall_mem_map.2 hs
    rw [written] at h
    split at h
    · obtain rfl := Except.ok.inj h
      exact hr
    · split at h
      · next t _ =>
        obtain rfl := Except.ok.inj h
        rw [← Run.ofLines_append run, List.map_append, List.map_append] at hr
        simp only [List.forall_mem_append] at hr
        simp only [Run.written, List.forall_mem_append]
        refine ⟨⟨hr.1, ?_⟩, hr.2.2⟩
        rw [List.forall_mem_map]
        intro c hc
        exact whole_answerLine hi hn (Text.unbroken_of_mem_lines hc)
      · contradiction

theorem whole_writtenLines (hi : ∀ c ∈ indent, isPadding c) (hn : newline ≠ .missing)
    {segs : List Segment} (hs : ∀ l ∈ segs.flatMap Segment.lines, l.line.Whole) {ls : List Line}
    (h : writtenLines answer indent newline segs = .ok ls) : ∀ l ∈ ls, l.Whole := by
  induction segs generalizing ls with
  | nil =>
    obtain rfl := Except.ok.inj h
    simp
  | cons seg segs ih =>
    rw [List.flatMap_cons, List.forall_mem_append] at hs
    simp only [writtenLines, Except.bind_eq_ok_iff, Except.ok.injEq] at h
    obtain ⟨ls, hl, ms, hm, rfl⟩ := h
    exact List.forall_mem_append.2 ⟨Segment.whole_written hi hn hs.1 hl, ih hs.2 hm⟩

theorem Opener.whole_bodyAfter {o : Opener} (ho : o.WellFormed) (rule : HeaderRule)
    (languages : List Text) {body : List Line} (hb : ∀ l ∈ body, l.Whole) :
    ∀ l ∈ o.bodyAfter rule answer languages body, l.Whole := by
  rw [bodyAfter]
  split
  · split
    · next ls h =>
      obtain ⟨c, hc, hw⟩ := Except.bind_eq_ok_iff.1 h
      refine whole_writtenLines ho.indent (newlineOf_ne_missing _) ?_ hw
      rw [segments, flatMap_lines_segmentsFrom, ← List.forall_mem_map (f := BodyLine.line),
        (Body.classify_eq_ok hc).1]
      exact hb
    · exact hb
  · exact hb

end Whole

namespace Layout

theorem lines_eq_nil_iff {ps : Layout} : lines ps = [] ↔ ps = [] := by
  cases ps with
  | nil => simp
  | cons p ps => cases p <;> simp

/-- The lines of a body have endings, since the closing fence comes after them. -/
theorem whole_of_mem_fences {ps : Layout} (h : Lined (lines ps)) :
    ∀ f ∈ fences ps, ∀ l ∈ f.body, l.Whole := by
  induction ps with
  | nil => simp
  | cons p ps ih =>
    cases p with
    | line l => exact ih (by simpa [Lined] using (lines_line l ps ▸ h).2)
    | fenced f =>
      rw [lines_fenced, ← List.cons_append] at h
      obtain ⟨hb, hr⟩ := h.split (by simp)
      exact List.forall_mem_cons.2 ⟨(List.forall_mem_cons.1 hb).2, ih hr.2⟩

theorem lined_cons_withBody {g : Fenced → List Line} {ps : Layout} {l : Line}
    (h : Lined (l :: lines ps)) (hr : Lined (lines (ps.map (·.withBody g)))) :
    Lined (l :: lines (ps.map (·.withBody g))) := by
  refine ⟨h.1.imp_right fun hu => ⟨hu.1, ?_⟩, hr⟩
  rw [lines_eq_nil_iff.1 hu.2]
  rfl

theorem lined_withBody {g : Fenced → List Line} {ps : Layout} (h : Lined (lines ps))
    (hg : ∀ f ∈ fences ps, ∀ l ∈ g f, l.Whole) : Lined (lines (ps.map (·.withBody g))) := by
  induction ps with
  | nil => trivial
  | cons p ps ih =>
    cases p with
    | line l =>
      rw [lines_line] at h
      rw [List.map_cons, Piece.withBody, lines_line]
      exact lined_cons_withBody h (ih h.2 hg)
    | fenced f =>
      obtain ⟨hf, hg⟩ := List.forall_mem_cons.1 hg
      rw [lines_fenced, ← List.cons_append] at h
      obtain ⟨hb, hr⟩ := h.split (by simp)
      rw [List.map_cons, Piece.withBody, lines_fenced, ← List.cons_append, lined_append]
      · exact lined_cons_withBody hr (ih hr.2 hg)
      · exact List.forall_mem_cons.2 ⟨(List.forall_mem_cons.1 hb).1, hf⟩

theorem render_map_joinLines (g : Fenced → List Line) (ps : Layout) :
    render ps ((fences ps).map fun f => joinLines (g f)) =
      joinLines (lines (ps.map (·.withBody g))) := by
  induction ps with
  | nil => rfl
  | cons p ps ih =>
    cases p with
    | line l => simp [render, Piece.withBody, ih]
    | fenced f => simp [render, Piece.withBody, ih]

/-- What a run meets in a document is what is in its layout. -/
theorem Proper.map_visits {α : Type} {ps : Layout} (hp : Proper ps) (rule : HeaderRule)
    (f : Formatter σ) (options : RunOptions) (s : σ) {text : Text}
    (hl : lines ps = text.splitLines) (Φ : Opener → Text → List Line → α) :
    ((visits rule f options text.splitLines text.blocks s).map fun v =>
        Φ v.1.opener v.1.trailing (v.1.body text.splitLines)) =
      (fences ps).map fun g => Φ g.opener g.trailing g.body := by
  have hb : blocksFrom 0 ps = text.blocks := hp.blocks_eq hl
  have hmap := map_blocksFrom Φ ps []
  simp only [List.nil_append, List.length_nil, hl, hb] at hmap
  rw [← hmap]
  conv_rhs => rw [← Outcome.map_fst_visits rule f options text.splitLines text.blocks s,
    List.map_map]
  rfl

end Layout

/-- The openers of a document are read off lines, and the lines of its bodies have endings. -/
theorem Text.wellFormed_of_mem_blocks {text : Text} :
    ∀ b ∈ text.blocks, b.opener.WellFormed ∧ ∀ l ∈ b.body text.splitLines, l.Whole := by
  obtain ⟨ps, hl, hp⟩ := Layout.exists_proper text.splitLines
  have hw := Layout.whole_of_mem_fences (hl ▸ lined_splitLines text)
  have hf : ∀ f ∈ ps.fences, f.opener.WellFormed ∧ ∀ l ∈ f.body, l.Whole :=
    fun f hf => ⟨f.wellFormed, hw f hf⟩
  exact (hp.forall_blocks_iff hl fun o body _ => o.WellFormed ∧ ∀ l ∈ body, l.Whole).2
    (Layout.forall_mem_fences_iff.1 hf)

/-- A run in terms of the lines it writes and of the faults it reports. -/
theorem formatWith_written (rule : HeaderRule) {f : Formatter σ} {options : RunOptions}
    {answer : Text → Except FormatError Text} (hf : f.Answers options.format answer) (text : Text)
    (s : σ) (hv : options.format.validate = .ok ()) :
    ∃ r s', formatWith rule f options text s = (.ok r, s') ∧ r.modified = (r.text != text) ∧
      ∀ ps : Layout, ps.lines = text.splitLines → ps.Proper →
        r.text.splitLines = Layout.lines (ps.map (·.withBody fun f =>
          f.opener.bodyAfter rule answer options.languages f.body)) ∧
        r.errors.map BlockError.fault = ps.fences.filterMap fun f =>
          f.opener.fault? rule answer options.languages f.body := by
  obtain ⟨r, s', hr, hm, ht, he, -⟩ := formatWith_eq_ok rule f text s hv
  refine ⟨r, s', hr, hm, fun ps hl hp => ?_⟩
  constructor
  · have hbodies := hp.map_visits rule f options s hl fun o _ body =>
      joinLines (o.bodyAfter rule answer options.languages body)
    rw [ht ps hl hp]
    simp only [Block.newBody_eq hf]
    rw [hbodies, Layout.render_map_joinLines, splitLines_joinLines]
    apply Layout.lined_withBody
    · rw [hl]
      exact lined_splitLines text
    · intro f hf
      refine Opener.whole_bodyAfter f.wellFormed rule _ ?_
      exact Layout.whole_of_mem_fences (hl ▸ lined_splitLines text) f hf
  · have hfaults := hp.map_visits rule f options s hl fun o _ body =>
      o.fault? rule answer options.languages body
    have hsome := congrArg (List.filterMap id) hfaults
    rw [List.filterMap_map, List.filterMap_map] at hsome
    rw [he, List.map_filterMap]
    simp only [Block.map_fault_error? hf]
    exact hsome

end FencedCode
