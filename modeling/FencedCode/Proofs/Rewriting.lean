import FencedCode.Proofs.Rereading

/-! What the next run writes for a body that a run has written. -/
namespace FencedCode

variable {rule : HeaderRule} {kind : BlockKind} {indent : Text} {newline next : Ending}
  {answer : Text → Except FormatError Text}

namespace Run

variable {t : Text}

theorem ofLines_reread (ht : Finished t) (hi : ∀ c ∈ indent, isPadding c)
    (hn : newline ≠ .missing) (run : List BodyLine) :
    ofLines ((ofLines run).reread indent newline t) =
      ⟨(ofLines run).leading, t.lines.map (answerBody indent newline), (ofLines run).trailing⟩ := by
  have hb : ∀ c ∈ t.lines, (answerBody indent newline c).isBlank = c.isAllBlank := by
    intro c hc
    rw [BodyLine.isBlank, ht.answerBody_eq hi hn hc]
  apply ofLines_append_code
  · exact isBlank_leading
  · exact isBlank_trailing
  · rw [ne_eq, List.map_eq_nil_iff]
    exact ht.lines_ne_nil
  · rw [List.head?_map]
    intro l hl
    obtain ⟨c, hc, rfl⟩ := Option.map_eq_some_iff.1 hl
    rw [hb c (List.mem_of_mem_head? hc), ht.first c hc]
  · rw [List.getLast?_map]
    intro l hl
    obtain ⟨c, hc, rfl⟩ := Option.map_eq_some_iff.1 hl
    rw [hb c (List.mem_of_mem_getLast? hc), ht.last c hc]

/-- The next run gives the formatter its own answer. -/
theorem source_reread (ht : Finished t) (hi : ∀ c ∈ indent, isPadding c)
    (hn : newline ≠ .missing) (run : List BodyLine) :
    (ofLines ((ofLines run).reread indent newline t)).source = t := by
  rw [ofLines_reread ht hi hn, source, List.flatMap_map]
  conv_rhs => rw [← ht.flatMap_lines]
  refine List.flatMap_congr fun c hc => ?_
  rw [ht.answerBody_eq hi hn hc]

end Run

/-- The next run gives an answer the same endings exactly if it takes the same ending for new
lines. -/
theorem Finished.map_answerLine_eq_iff {t : Text} (ht : Finished t)
    (hi : ∀ c ∈ indent, isPadding c) (hn : newline ≠ .missing) (hx : next ≠ .missing) :
    t.lines.map (answerLine indent next) = t.lines.map (answerLine indent newline) ↔
      next = newline := by
  constructor
  · intro h
    obtain ⟨c, cs, hc⟩ := List.exists_cons_of_ne_nil ht.lines_ne_nil
    have hm : c ∈ t.lines := by rw [hc]; exact List.mem_cons_self
    have he := (List.map_inj_left.1 h) c hm
    rw [ht.answerLine_eq hi hn hm, ht.answerLine_eq hi hx hm] at he
    exact congrArg Line.ending he
  · rintro rfl
    rfl

/-- An artifact is written once more as it is, unless space stood before the carriage return. -/
theorem BodyLine.settled_again_eq_iff (indent : Text) {l : BodyLine} (ha : l.kind.isArtifact)
    (h : l.line.Whole) :
    (l.again indent).settled = l.settled ↔
      (l.uncovers → l.settled.content.trimPadding = l.settled.content) := by
  rcases settled_cases h with hs | ⟨hv, he, d, hd, hs⟩
  · have hu : l.uncovers = false := by simp [uncovers, hs]
    have hp : (l.again indent).preserved = l.preserved := by
      rw [again, hs, preserved, preserved]
      simp only
      split
      · rfl
      · rw [Text.trimPadding_trimPadding]
    have hx : (l.again indent).settled = l.settled := by
      rw [settled, hp, settled, again, hs]
    simp [hx, hu]
  · have hu : l.uncovers := by simp [uncovers, ha, hs, he]
    have hn : '\n' ∉ d := by
      have hb := unbroken_preserved h
      rw [hd] at hb
      exact fun hm => hb (List.mem_append_left _ hm)
    have hx : (l.again indent).settled = ⟨d.trimPadding, .crlf⟩ := by
      rw [settled, preserved, again, hs]
      simp only [hv, Bool.false_eq_true, if_false]
      exact Line.Whole.ofText_text (l := ⟨d.trimPadding, .crlf⟩)
        ⟨by simp, mt Text.mem_of_mem_trimPadding hn, by simp⟩
    rw [hx, hs]
    simp [hu]

/-- What it takes for a line to be written as before, where `newline` is the ending of new lines
in a run and `next` that in the next one. -/
def BodyLine.Settles (newline next : Ending) (l : BodyLine) : Prop :=
  if l.kind.isArtifact then l.uncovers → l.settled.content.trimPadding = l.settled.content
  else next = newline ∨ l.isBlank

section Again

variable (hs : Steady answer) (hi : ∀ c ∈ indent, isPadding c) (hn : newline ≠ .missing)
  (hx : next ≠ .missing)

include hs hi hn hx

theorem Segment.exists_written_again {seg : Segment} (hc : WellCut [seg])
    (hl : ∀ l ∈ seg.lines, l.line.Whole) {ls : List Line}
    (h : seg.written answer indent newline = .ok ls) :
    ∃ ms, (seg.again answer indent newline).written answer indent next = .ok ms ∧
      ms.length = ls.length ∧ (ms = ls ↔ ∀ l ∈ seg.lines, l.Settles newline next) := by
  cases seg with
  | artifact l =>
    obtain rfl := Except.ok.inj h
    refine ⟨[(l.again indent).settled], rfl, rfl, ?_⟩
    have he := BodyLine.settled_again_eq_iff indent hc.1 (hl l List.mem_cons_self)
    simp only [Segment.lines, List.mem_singleton, forall_eq, BodyLine.Settles, if_pos hc.1, ← he,
      List.cons.injEq, and_true]
  | source first run =>
    have hk : ∀ l ∈ run, l.kind.isArtifact = false := hc.2.1
    have hset : ∀ l ∈ run, (l.Settles newline next ↔ next = newline ∨ l.isBlank) := by
      intro l hm
      rw [BodyLine.Settles, if_neg (by simp [hk l hm])]
    have hall : (∀ l ∈ run, l.Settles newline next) ↔
        (next = newline ∨ (Run.ofLines run).code = []) := by
      rw [Run.code_eq_nil_iff]
      constructor
      · intro h
        by_cases he : next = newline
        · exact .inl he
        · exact .inr fun l hm => ((hset l hm).1 (h l hm)).resolve_left he
      · intro h l hm
        exact (hset l hm).2 (h.imp_right fun h => h l hm)
    rw [Segment.lines, hall]
    obtain ⟨hcode, rfl, ha⟩ | ⟨hcode, t, ht, rfl, ha⟩ := Segment.written_source h
    · refine ⟨run.map BodyLine.line, ?_, rfl, iff_of_true rfl (.inr hcode)⟩
      rw [ha, written, if_pos (by simp [hcode])]
    · have hf := hs.finished ht
      refine ⟨(Run.ofLines run).written indent next t, ?_, ?_, ?_⟩
      · rw [ha, written, if_neg, Run.source_reread hf hi hn, hs.fixed ht,
          Run.ofLines_reread hf hi hn]
        · rfl
        · rw [Run.ofLines_reread hf hi hn]
          simpa using hf.lines_ne_nil
      · simp [Run.written]
      · rw [Run.written, Run.written, List.append_left_inj, List.append_right_inj,
          hf.map_answerLine_eq_iff hi hn hx]
        simp [hcode]

theorem exists_writtenLines_again {segs : List Segment} (hc : WellCut segs)
    (hl : ∀ l ∈ segs.flatMap Segment.lines, l.line.Whole) {ls : List Line}
    (h : writtenLines answer indent newline segs = .ok ls) :
    ∃ ms, writtenLines answer indent next (segs.map (·.again answer indent newline)) = .ok ms ∧
      ms.length = ls.length ∧
      (ms = ls ↔ ∀ l ∈ segs.flatMap Segment.lines, l.Settles newline next) := by
  induction segs generalizing ls with
  | nil =>
    obtain rfl := Except.ok.inj h
    exact ⟨[], rfl, rfl, by simp⟩
  | cons seg segs ih =>
    simp only [writtenLines, Except.bind_eq_ok_iff, Except.ok.injEq] at h
    obtain ⟨ls, hseg, ls', hsegs, rfl⟩ := h
    rw [List.flatMap_cons, List.forall_mem_append] at hl
    obtain ⟨hc₁, hc₂⟩ := hc.cons
    obtain ⟨ms, hm, hlen, hiff⟩ := Segment.exists_written_again hs hi hn hx hc₁ hl.1 hseg
    obtain ⟨ms', hm', hlen', hiff'⟩ := ih hc₂ hl.2 hsegs
    refine ⟨ms ++ ms', ?_, ?_, ?_⟩
    · rw [List.map_cons, writtenLines, hm, hm']
      rfl
    · rw [List.length_append, List.length_append, hlen, hlen']
    · rw [List.flatMap_cons, List.forall_mem_append, ← hiff, ← hiff']
      constructor
      · intro he
        exact List.append_inj he hlen
      · rintro ⟨he, he'⟩
        rw [he, he']

end Again

theorem writtenLines_unplaced (segs : List Segment) :
    writtenLines answer indent newline (segs.map Segment.unplaced) =
      writtenLines answer indent newline segs := by
  induction segs with
  | nil => rfl
  | cons seg segs ih =>
    rw [List.map_cons, writtenLines, writtenLines, ih]
    cases seg <;> rfl

/-- Lines that make up well-cut segments are written as these. -/
theorem writtenLines_segments {segs : List Segment} (h : WellCut segs) :
    writtenLines answer indent newline (segments (segs.flatMap Segment.lines)) =
      writtenLines answer indent newline segs := by
  rw [← writtenLines_unplaced, segments, map_unplaced_segmentsFrom h, writtenLines_unplaced]

theorem newlineOf_cons (l : BodyLine) (ls : List BodyLine) :
    newlineOf (l :: ls) = if l.ending = .crlf then .crlf else .lf := by
  cases h : l.ending <;> simp [newlineOf, h]

/-- The ending of new lines stays the same unless the first line of the body lays bare a carriage
return. -/
theorem newlineOf_again_eq_iff (hs : Steady answer) (hi : ∀ c ∈ indent, isPadding c)
    {ls : List BodyLine} (hw : ∀ l ∈ ls, l.line.Whole) {ms : List Line}
    (hm : writtenLines answer indent (newlineOf ls) (segments ls) = .ok ms) :
    newlineOf (linesAgain answer indent (newlineOf ls) ls) = newlineOf ls ↔
      ∀ l ∈ ls.head?, l.uncovers = false := by
  have hn := newlineOf_ne_missing ls
  induction ls using bodyInduction with
  | nil => simp [linesAgain, segments, segmentsFrom]
  | artifact l ls ha _ =>
    have hwl := hw l List.mem_cons_self
    rw [linesAgain, segments, segmentsFrom_artifact ha, List.map_cons, List.flatMap_cons,
      Segment.again, Segment.lines, List.singleton_append, newlineOf_cons, newlineOf_cons,
      List.head?_cons]
    simp only [Option.mem_def, Option.some.injEq, forall_eq', BodyLine.uncovers, ha, Bool.true_and,
      bne_eq_false_iff_eq]
    change (if l.settled.ending = _ then _ else _) = _ ↔ _
    rcases BodyLine.settled_cases hwl with he | ⟨-, he, d, -, he'⟩
    · simp [he]
    · simp [he, he']
  | run run tail hr hk ht _ =>
    obtain ⟨l, run, rfl⟩ := List.exists_cons_of_ne_nil hr
    have hu : l.uncovers = false := by simp [BodyLine.uncovers, hk l List.mem_cons_self]
    rw [segments, segmentsFrom_run hr hk ht] at hm
    rw [linesAgain, segments, segmentsFrom_run hr hk ht]
    simp only [writtenLines, Except.bind_eq_ok_iff] at hm
    obtain ⟨ls, hseg, -⟩ := hm
    rw [List.map_cons, List.flatMap_cons]
    refine iff_of_true ?_ (by simp [hu])
    obtain ⟨-, -, ha⟩ | ⟨-, t, hans, -, ha⟩ := Segment.written_source hseg
    · rw [ha, Segment.lines, List.cons_append, List.cons_append, newlineOf_cons, newlineOf_cons]
    · rw [ha, Segment.lines, Run.reread]
      by_cases hb : l.isBlank
      · have hlead : (Run.ofLines (l :: run)).leading = l :: run.takeWhile BodyLine.isBlank := by
          simp [Run.ofLines, hb]
        rw [hlead, List.cons_append, List.cons_append, newlineOf_cons, List.cons_append,
          newlineOf_cons]
      · have hlead : (Run.ofLines (l :: run)).leading = [] := by simp [Run.ofLines, hb]
        have hf := hs.finished hans
        obtain ⟨c, cs, hc⟩ := List.exists_cons_of_ne_nil hf.lines_ne_nil
        have hbody := hf.answerBody_eq hi hn (c := c) (by rw [hc]; exact List.mem_cons_self)
        rw [hlead, hc, List.map_cons, List.nil_append, List.cons_append, List.cons_append,
          newlineOf_cons, hbody]
        cases he : newlineOf (l :: run ++ tail) with
        | missing => exact absurd he hn
        | lf => rfl
        | crlf => rfl

end FencedCode
