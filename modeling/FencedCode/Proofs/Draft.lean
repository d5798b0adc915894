import FencedCode.Proofs.Feeding
import FencedCode.Proofs.Written

/-! The lines that a run puts together, whatever the formatter answers. They are what a run does to
a document line by line: the answers decide on them, and nothing else that the formatter does.
Unlike the lines that the new text is cut into later, the content of one may end with a carriage
return before a bare line feed. -/
namespace FencedCode

variable {σ : Type}

/-- An artifact as a run puts it into the text. -/
def BodyLine.draft (l : BodyLine) : Line := ⟨l.preserved, l.ending⟩

/-- A line of an answer as a run puts it into the text. -/
def draftLine (indent : Text) (newline : Ending) (t : Text) : Line :=
  ⟨if t.isAllBlank then [] else indent ++ t, newline⟩

def Run.draft (r : Run) (indent : Text) (newline : Ending) (answer : Text) : List Line :=
  r.leading.map BodyLine.line ++ answer.lines.map (draftLine indent newline) ++
    r.trailing.map BodyLine.line

theorem Run.joinLines_draft (r : Run) (indent : Text) (newline : Ending) (answer : Text) :
    joinLines (r.draft indent newline answer) = r.wrap indent newline answer := by
  simp only [draft, joinLines_append, joinLines_map_line, wrap, List.append_assoc]
  simp [joinLines, draftLine, Line.text, List.flatMap_map]

theorem joinLines_map_eq {x : Except BlockError (List Line)} {g : List Line → List Line}
    {t : Text} (h : ∀ ls, joinLines (g ls) = t ++ joinLines ls) :
    (x.map g).map joinLines = (x.map joinLines).map (t ++ ·) := by
  cases x with
  | error e => rfl
  | ok ls => exact congrArg Except.ok (h ls)

namespace Block

/-- The lines that the segments of a body are replaced by, given the formatter's answers to their
sources. Runs beyond the given answers are left as they are. -/
def draft (b : Block) (newline : Ending) :
    List Segment → List (Except FormatError Text) → Except BlockError (List Line)
  | [], _ => .ok []
  | .artifact l :: segs, answers => (b.draft newline segs answers).map (l.draft :: ·)
  | .source first run :: segs, answers =>
    if (Run.ofLines run).code.isEmpty then
      (b.draft newline segs answers).map (run.map BodyLine.line ++ ·)
    else match answers with
      | [] => (b.draft newline segs []).map (run.map BodyLine.line ++ ·)
      | .ok answer :: answers =>
        (b.draft newline segs answers).map ((Run.ofLines run).draft b.indent newline answer ++ ·)
      | .error e :: _ => .error (b.formatError (first + (Run.ofLines run).leading.length) e)

theorem draft_of_no_code {run : List BodyLine} (h : (Run.ofLines run).code = []) (b : Block)
    (newline : Ending) (first : Nat) (segs : List Segment)
    (answers : List (Except FormatError Text)) :
    b.draft newline (.source first run :: segs) answers =
      (b.draft newline segs answers).map (run.map BodyLine.line ++ ·) := by
  rw [draft.eq_def]
  simp [h]

theorem draft_of_code {run : List BodyLine} (h : (Run.ofLines run).code ≠ []) (b : Block)
    (newline : Ending) (first : Nat) (segs : List Segment)
    (answers : List (Except FormatError Text)) :
    b.draft newline (.source first run :: segs) answers =
      match answers with
      | [] => (b.draft newline segs []).map (run.map BodyLine.line ++ ·)
      | .ok answer :: answers =>
        (b.draft newline segs answers).map ((Run.ofLines run).draft b.indent newline answer ++ ·)
      | .error e :: _ => .error (b.formatError (first + (Run.ofLines run).leading.length) e) := by
  rw [draft.eq_def]
  simp [h]

/-- The lines that a body is replaced by, or the error that keeps it from being replaced. -/
def draftBody (rule : HeaderRule) (lines : List Line) (b : Block)
    (answers : List (Except FormatError Text)) : Except BlockError (List Line) :=
  match Body.classify rule b.kind b.indent (b.body lines) with
  | .error fault => .error (.new b.location fault)
  | .ok c => b.draft (newlineOf c.lines) (segments c.lines) answers

/-- What a formatter in a given state answers to the sources of a block. -/
def answers (rule : HeaderRule) (f : Formatter σ) (options : FormatOptions) (lines : List Line)
    (b : Block) (s : σ) : List (Except FormatError Text) :=
  (f.feed options (b.sources rule lines) s).1.map Prod.snd

/-- The lines of a block's body after a run. -/
def newLines (rule : HeaderRule) (f : Formatter σ) (options : RunOptions) (lines : List Line)
    (b : Block) (s : σ) : List Line :=
  if b.isWrittenIn options.languages then
    match b.draftBody rule lines (b.answers rule f options.format lines s) with
    | .ok ls => ls
    | .error _ => b.body lines
  else b.body lines

theorem formatSegments_draft (f : Formatter σ) (options : FormatOptions) (b : Block)
    (newline : Ending) (segs : List Segment) (s : σ) :
    (b.formatSegments f options newline segs s).result =
      (b.draft newline segs
        ((f.feed options (segs.filterMap Segment.source?) s).1.map Prod.snd)).map joinLines := by
  induction segs generalizing s with
  | nil => rfl
  | cons seg segs ih =>
    cases seg with
    | artifact l =>
      rw [formatSegments_artifact_result, ih, draft]
      exact (joinLines_map_eq fun ls => joinLines_cons l.draft ls).symm
    | source first run =>
      by_cases hc : (Run.ofLines run).code = []
      · rw [List.filterMap_cons_none (Segment.source?_of_no_code hc), draft_of_no_code hc,
          formatSegments, formatRun]
        simp only [hc, List.isEmpty_nil, if_true, ih]
        refine (joinLines_map_eq fun ls => ?_).symm
        rw [joinLines_append, joinLines_map_line]
      · rw [List.filterMap_cons_some (Segment.source?_of_code hc), draft_of_code hc,
          formatSegments, formatRun, Formatter.feed]
        simp only [List.isEmpty_iff, hc, if_false]
        cases f.format (Run.ofLines run).source options s with
        | mk result s =>
          cases result with
          | ok answer =>
            simp only [List.map_cons, ih]
            refine (joinLines_map_eq fun ls => ?_).symm
            rw [joinLines_append, Run.joinLines_draft]
          | error e => rfl

section Body

variable (rule : HeaderRule) (f : Formatter σ) (lines : List Line) (b : Block) (s : σ)

theorem format_draft (options : FormatOptions) :
    (b.format rule f options lines s).result.map FormattedBlock.body =
      (b.draftBody rule lines (b.answers rule f options lines s)).map joinLines := by
  rw [format, draftBody, answers, sources]
  cases Body.classify rule b.kind b.indent (b.body lines) with
  | error fault => rfl
  | ok c =>
    have hs := b.formatSegments_draft f options (newlineOf c.lines) (segments c.lines) s
    simp only [← hs]
    cases (b.formatSegments f options (newlineOf c.lines) (segments c.lines) s).result <;> rfl

theorem joinLines_newLines (options : RunOptions) :
    joinLines (b.newLines rule f options lines s) = b.newBody rule f options lines s := by
  have hd := b.format_draft rule f lines s options.format
  rw [newLines, newBody]
  split
  · cases hr : (b.format rule f options.format lines s).result <;>
      cases hb : b.draftBody rule lines (b.answers rule f options.format lines s) <;>
      simp_all [Except.map]
  · rfl

theorem error?_eq (options : RunOptions) :
    b.error? rule f options lines s =
      if b.isWrittenIn options.languages then
        match b.draftBody rule lines (b.answers rule f options.format lines s) with
        | .ok _ => none
        | .error e => some e
      else none := by
  have hd := b.format_draft rule f lines s options.format
  rw [error?]
  split
  · cases hr : (b.format rule f options.format lines s).result <;>
      cases hb : b.draftBody rule lines (b.answers rule f options.format lines s) <;>
      simp_all [Except.map]
  · rfl

theorem stateAfter_eq (options : RunOptions) :
    b.stateAfter rule f options lines s =
      (f.feed options.format (b.offered rule options.languages lines) s).2 := by
  rw [← (Outcome.ofBlock_eq rule f options lines b s).2.2.2.2]
  exact (Outcome.ofBlock_feed rule f options lines b s).2

theorem not_fails_iff_draftBody (options : FormatOptions) :
    ¬ b.Fails rule f options lines s ↔
      ∃ ls, b.draftBody rule lines (b.answers rule f options lines s) = .ok ls := by
  have hd := b.format_draft rule f lines s options
  obtain ⟨hf, e, he, -⟩ | ⟨hn, new, he⟩ := b.format_result rule f options lines s
  · rw [he, Except.map, eq_comm, Except.map_eq_error_iff] at hd
    simp [hf, hd]
  · rw [he, Except.map, eq_comm, Except.map_eq_ok_iff] at hd
    obtain ⟨ls, hl, -⟩ := hd
    exact iff_of_true hn ⟨ls, hl⟩

end Body

/-- What stands for a run is the run itself, or an answer between the blank lines around its
code. -/
theorem exists_of_draft_source {b : Block} {newline : Ending} {first : Nat} {run : List BodyLine}
    {segs : List Segment} {answers : List (Except FormatError Text)} {ls : List Line}
    (h : b.draft newline (.source first run :: segs) answers = .ok ls) :
    ∃ ks ms answers', b.draft newline segs answers' = .ok ms ∧ ls = ks ++ ms ∧
      (ks = run.map BodyLine.line ∨
        ∃ answer, ks = (Run.ofLines run).draft b.indent newline answer) := by
  by_cases hc : (Run.ofLines run).code = []
  · rw [draft_of_no_code hc] at h
    obtain ⟨ms, hm, rfl⟩ := Except.map_eq_ok_iff.1 h
    exact ⟨_, ms, answers, hm, rfl, .inl rfl⟩
  · rw [draft_of_code hc] at h
    cases answers with
    | nil =>
      obtain ⟨ms, hm, rfl⟩ := Except.map_eq_ok_iff.1 h
      exact ⟨_, ms, [], hm, rfl, .inl rfl⟩
    | cons x answers =>
      cases x with
      | error e => contradiction
      | ok answer =>
        obtain ⟨ms, hm, rfl⟩ := Except.map_eq_ok_iff.1 h
        exact ⟨_, ms, answers, hm, rfl, .inr ⟨answer, rfl⟩⟩

/-- Of what is put together for a body, only the artifacts can lack a property that the lines of
the document and all lines of answers have. -/
theorem forall_mem_draft_iff {P : Line → Prop} {b : Block} {newline : Ending}
    (ha : ∀ t, '\n' ∉ t → P (draftLine b.indent newline t)) {segs : List Segment}
    (hl : ∀ l ∈ segs.flatMap Segment.lines, P l.line) {answers : List (Except FormatError Text)}
    {ls : List Line} (h : b.draft newline segs answers = .ok ls) :
    (∀ l ∈ ls, P l) ↔ ∀ l, .artifact l ∈ segs → P l.draft := by
  induction segs generalizing answers ls with
  | nil =>
    obtain rfl := Except.ok.inj h
    simp
  | cons seg segs ih =>
    rw [List.flatMap_cons, List.forall_mem_append] at hl
    cases seg with
    | artifact l =>
      obtain ⟨ms, hm, rfl⟩ := Except.map_eq_ok_iff.1 h
      simp only [ih hl.2 hm, List.mem_cons, Segment.artifact.injEq, or_imp, forall_and, forall_eq]
    | source first run =>
      have hr : ∀ l ∈ run.map BodyLine.line, P l := List.forall_mem_map.2 hl.1
      obtain ⟨ks, ms, answers', hm, rfl, hk⟩ := exists_of_draft_source h
      -- Neither a run that is left as it is nor an answer with the lines around it matters.
      have hks : ∀ l ∈ ks, P l := by
        obtain rfl | ⟨answer, rfl⟩ := hk
        · exact hr
        · rw [← Run.ofLines_append run, List.map_append, List.map_append] at hr
          simp only [List.forall_mem_append] at hr
          simp only [Run.draft, List.forall_mem_append]
          refine ⟨⟨hr.1, ?_⟩, hr.2.2⟩
          rw [List.forall_mem_map]
          intro t ht
          exact ha t (Text.unbroken_of_mem_lines ht)
      simp only [List.forall_mem_append, ih hl.2 hm, List.mem_cons, reduceCtorEq, false_or,
        and_iff_right hks]

theorem forall_mem_newLines_iff {P : Line → Prop} {rule : HeaderRule} {f : Formatter σ}
    {options : RunOptions} {lines : List Line} {b : Block} {s : σ}
    (ha : ∀ c, Body.classify rule b.kind b.indent (b.body lines) = .ok c → ∀ t, '\n' ∉ t →
      P (draftLine b.indent (newlineOf c.lines) t))
    (hl : ∀ l ∈ b.body lines, P l) :
    (∀ l ∈ b.newLines rule f options lines s, P l) ↔
      (b.isWrittenIn options.languages → ¬ b.Fails rule f options.format lines s →
        ∀ c, Body.classify rule b.kind b.indent (b.body lines) = .ok c →
          ∀ l ∈ c.lines, l.kind.isArtifact → P l.draft) := by
  rw [not_fails_iff_draftBody, newLines]
  by_cases hw : b.isWrittenIn options.languages
  · simp only [hw, if_true, true_implies]
    cases hd : b.draftBody rule lines (b.answers rule f options.format lines s) with
    | error e => simpa using hl
    | ok ls =>
      rw [draftBody] at hd
      cases hc : Body.classify rule b.kind b.indent (b.body lines) with
      | error fault =>
        rw [hc] at hd
        contradiction
      | ok c =>
        rw [hc] at hd
        have hs : ∀ l ∈ (segments c.lines).flatMap Segment.lines, P l.line := by
          rw [segments, flatMap_lines_segmentsFrom, ← List.forall_mem_map (f := BodyLine.line),
            (Body.classify_eq_ok hc).1]
          exact hl
        simp only [forall_mem_draft_iff (ha c hc) hs hd, segments, artifact_mem_segmentsFrom_iff,
          Except.ok.injEq, exists_eq', true_implies, forall_eq', and_imp]
  · simpa [hw] using hl

end Block

/-- The layout's lines with other lines for its bodies, in order. Bodies beyond the given ones are
left as they are. -/
def Layout.weave : Layout → List (List Line) → List Line
  | [], _ => []
  | .line l :: ps, ws => l :: weave ps ws
  | .fenced f :: ps, [] => f.fence :: (f.body ++ f.close :: weave ps [])
  | .fenced f :: ps, w :: ws => f.fence :: (w ++ f.close :: weave ps ws)

theorem Layout.render_map_joinLines_eq (ps : Layout) (ws : List (List Line)) :
    ps.render (ws.map joinLines) = joinLines (ps.weave ws) := by
  induction ps generalizing ws with
  | nil => rfl
  | cons p ps ih =>
    cases p with
    | line l => rw [render, weave, ih, joinLines_cons]
    | fenced f =>
      cases ws with
      | nil =>
        have hi := ih []
        rw [List.map_nil] at hi
        simp [render, weave, hi]
      | cons w ws => simp [render, weave, ih]

theorem Layout.forall_mem_weave_iff {P : Line → Prop} {ps : Layout} {ws : List (List Line)}
    (hl : ∀ l ∈ ps.lines, P l) (hn : ws.length = ps.fences.length) :
    (∀ l ∈ ps.weave ws, P l) ↔ ∀ w ∈ ws, ∀ l ∈ w, P l := by
  induction ps generalizing ws with
  | nil =>
    obtain rfl : ws = [] := by simpa using hn
    simp [weave]
  | cons p ps ih =>
    cases p with
    | line l =>
      rw [lines_line, List.forall_mem_cons] at hl
      rw [weave, List.forall_mem_cons, ih hl.2 hn, and_iff_right hl.1]
    | fenced f =>
      cases ws with
      | nil => simp at hn
      | cons w ws =>
        simp only [lines_fenced, List.forall_mem_cons, List.forall_mem_append] at hl
        simp only [weave, List.forall_mem_cons, List.forall_mem_append,
          ih hl.2.2.2 (by simpa using hn), hl.1, hl.2.2.1, true_and]

/-- The lines that a run makes of a document with the given layout. -/
def Layout.rewritten (rule : HeaderRule) (f : Formatter σ) (options : RunOptions) (text : Text)
    (s : σ) (ps : Layout) : List Line :=
  ps.weave ((visits rule f options text.splitLines text.blocks s).map fun v =>
    v.1.newLines rule f options text.splitLines v.2)

theorem Block.mem_of_mem_body {b : Block} {lines : List Line} {l : Line} (h : l ∈ b.body lines) :
    l ∈ lines := List.mem_of_mem_drop (List.mem_of_mem_take h)

theorem mem_blocks_of_mem_visits {rule : HeaderRule} {f : Formatter σ} {options : RunOptions}
    {lines : List Line} {bs : List Block} {s : σ} {v : Block × σ}
    (h : v ∈ visits rule f options lines bs s) : v.1 ∈ bs := by
  rw [← Outcome.map_fst_visits rule f options lines bs s]
  exact List.mem_map_of_mem h

/-- Only an artifact of a block that is formatted can come to lack a property that all lines of the
document and all lines of answers have. -/
theorem Layout.Proper.forall_mem_rewritten_iff {P : Line → Prop} {ps : Layout} (hp : ps.Proper)
    {rule : HeaderRule} {f : Formatter σ} {options : RunOptions} {text : Text} {s : σ}
    (hs : ps.lines = text.splitLines) (hl : ∀ l ∈ text.splitLines, P l)
    (ha : ∀ b ∈ text.blocks, ∀ c,
      Body.classify rule b.kind b.indent (b.body text.splitLines) = .ok c →
        ∀ t, '\n' ∉ t → P (draftLine b.indent (newlineOf c.lines) t)) :
    (∀ l ∈ ps.rewritten rule f options text s, P l) ↔
      ∀ v ∈ visits rule f options text.splitLines text.blocks s,
        v.1.isWrittenIn options.languages →
          ¬ v.1.Fails rule f options.format text.splitLines v.2 →
          ∀ c, Body.classify rule v.1.kind v.1.indent (v.1.body text.splitLines) = .ok c →
            ∀ l ∈ c.lines, l.kind.isArtifact → P l.draft := by
  have hn := congrArg List.length (hp.map_visits rule f options s hs fun _ _ _ => ())
  rw [List.length_map, List.length_map] at hn
  rw [rewritten, forall_mem_weave_iff (hs ▸ hl) (by rwa [List.length_map]), List.forall_mem_map]
  refine forall₂_congr fun v hv => ?_
  exact Block.forall_mem_newLines_iff (ha v.1 (mem_blocks_of_mem_visits hv)) fun l hm =>
    hl l (Block.mem_of_mem_body hm)

/-- Lines that are cut apart again where they were put together: none holds a line feed, and only
the last one may lack its ending. A content may end with a carriage return. -/
def Drafted : List Line → Prop
  | [] => True
  | l :: ls => '\n' ∉ l.content ∧ (l.ending = .missing → l.content ≠ [] ∧ ls = []) ∧ Drafted ls

theorem Drafted.unbroken {ls : List Line} (h : Drafted ls) : ∀ l ∈ ls, '\n' ∉ l.content := by
  induction ls with
  | nil => simp
  | cons l ls ih => exact List.forall_mem_cons.2 ⟨h.1, ih h.2.2⟩

theorem Drafted.splitLines_joinLines {ls : List Line} (h : Drafted ls) :
    (joinLines ls).splitLines = ls.map fun l => Line.ofText l.text := by
  induction ls with
  | nil => rfl
  | cons l ls ih =>
    obtain ⟨hu, hm, h⟩ := h
    by_cases he : l.ending = .missing
    · obtain ⟨hc, rfl⟩ := hm he
      obtain ⟨c, e⟩ := l
      obtain rfl : e = .missing := he
      simp only [joinLines_cons, joinLines_nil, Line.text, Ending.text, List.append_nil,
        List.map_cons, List.map_nil, Text.splitLines_of_unbroken hu hc, Line.ofText_of_unbroken hu]
    · have hw : (Line.ofText l.text).Whole := Line.whole_ofText hu he
      have hs := hw.splitLines_text_append (joinLines ls)
      rw [Line.text_ofText] at hs
      rw [joinLines_cons, hs, ih h, List.map_cons]

theorem drafted_append {ls ms : List Line} (h : ∀ l ∈ ls, '\n' ∉ l.content ∧ l.ending ≠ .missing) :
    Drafted (ls ++ ms) ↔ Drafted ms := by
  induction ls with
  | nil => rfl
  | cons l ls ih =>
    obtain ⟨hl, hs⟩ := List.forall_mem_cons.1 h
    rw [List.cons_append, Drafted, ih hs]
    simp [hl]

theorem Layout.drafted_cons_weave {ps : Layout} {l : Line} (h : Lined (l :: ps.lines))
    {ws : List (List Line)} (hr : Drafted (ps.weave ws)) : Drafted (l :: ps.weave ws) := by
  obtain ⟨hl | ⟨hl, he⟩, -⟩ := h
  · exact ⟨hl.unbroken, fun he => absurd he hl.ended, hr⟩
  · obtain rfl := lines_eq_nil_iff.1 he
    exact ⟨hl.unbroken, fun _ => ⟨hl.filled, rfl⟩, hr⟩

theorem Layout.drafted_weave {ps : Layout} (h : Lined ps.lines) {ws : List (List Line)}
    (hw : ∀ w ∈ ws, ∀ l ∈ w, '\n' ∉ l.content ∧ l.ending ≠ .missing) : Drafted (ps.weave ws) := by
  induction ps generalizing ws with
  | nil => trivial
  | cons p ps ih =>
    cases p with
    | line l =>
      rw [lines_line] at h
      exact drafted_cons_weave h (ih h.2 hw)
    | fenced f =>
      rw [lines_fenced, ← List.cons_append] at h
      obtain ⟨hb, hr⟩ := h.split (by simp)
      have hf : ∀ l ∈ f.fence :: f.body, '\n' ∉ l.content ∧ l.ending ≠ .missing :=
        fun l hl => ⟨(hb l hl).unbroken, (hb l hl).ended⟩
      cases ws with
      | nil =>
        rw [weave, ← List.cons_append, drafted_append hf]
        exact drafted_cons_weave hr (ih hr.2 (by simp))
      | cons w ws =>
        obtain ⟨hw, hws⟩ := List.forall_mem_cons.1 hw
        rw [weave, ← List.cons_append, drafted_append]
        · exact drafted_cons_weave hr (ih hr.2 hws)
        · exact List.forall_mem_cons.2 ⟨(List.forall_mem_cons.1 hf).1, hw⟩

theorem unbroken_draftLine {indent : Text} (hi : ∀ c ∈ indent, isPadding c) (newline : Ending)
    {t : Text} (ht : '\n' ∉ t) : '\n' ∉ (draftLine indent newline t).content := by
  rw [draftLine]
  split
  · simp
  · exact Text.unbroken_append hi ht

theorem Block.drafted_newLines (rule : HeaderRule) (f : Formatter σ) (options : RunOptions)
    {text : Text} {b : Block} (hb : b ∈ text.blocks) (s : σ) :
    ∀ l ∈ b.newLines rule f options text.splitLines s,
      '\n' ∉ l.content ∧ l.ending ≠ .missing := by
  obtain ⟨ho, hw⟩ := Text.wellFormed_of_mem_blocks b hb
  rw [forall_mem_newLines_iff]
  · intro _ _ c hc l hl _
    have hm := Body.line_mem_of_classify hc hl
    exact ⟨BodyLine.unbroken_preserved (hw _ hm), (hw _ hm).ended⟩
  · intro c _ t ht
    exact ⟨unbroken_draftLine ho.indent _ ht, newlineOf_ne_missing c.lines⟩
  · exact fun l hl => ⟨(hw l hl).unbroken, (hw l hl).ended⟩

theorem Layout.drafted_rewritten (rule : HeaderRule) (f : Formatter σ) (options : RunOptions)
    {text : Text} (s : σ) {ps : Layout} (hs : ps.lines = text.splitLines) :
    Drafted (ps.rewritten rule f options text s) := by
  refine drafted_weave (hs ▸ lined_splitLines text) ?_
  rw [List.forall_mem_map]
  intro v hv
  exact Block.drafted_newLines rule f options (mem_blocks_of_mem_visits hv) v.2

/-- A run of which the options make sense, in terms of the lines that it puts together. -/
theorem formatWith_drafted (rule : HeaderRule) (f : Formatter σ) {options : RunOptions}
    (text : Text) (s : σ) (hv : options.format.validate = .ok ()) :
    ∃ r s', formatWith rule f options text s = (.ok r, s') ∧ r.modified = (r.text != text) ∧
      (∀ ps : Layout, ps.lines = text.splitLines → ps.Proper →
        r.text = joinLines (ps.rewritten rule f options text s)) ∧
      (r.errors = (visits rule f options text.splitLines text.blocks s).filterMap fun v =>
        v.1.error? rule f options text.splitLines v.2) ∧
      r.blocksSeen = text.blocks.length ∧
      r.blocksFormatted = (text.blocks.filter (·.isWrittenIn options.languages)).length := by
  obtain ⟨r, s', hr, hm, ht, he, hs, hn⟩ := formatWith_eq_ok rule f text s hv
  refine ⟨r, s', hr, hm, fun ps hl hp => ?_, he, hs, hn⟩
  rw [ht ps hl hp, Layout.rewritten, ← Layout.render_map_joinLines_eq, List.map_map]
  simp only [← Block.joinLines_newLines]
  rfl

end FencedCode
