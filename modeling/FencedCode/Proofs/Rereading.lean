import FencedCode.Proofs.Settling

/-! Bodies after a run, for a formatter that is content with its own answers: the next run cuts
such a body into the same segments, and gives the formatter its answers back. -/
namespace FencedCode

/-- A text such as a formatter of code gives as its answer. -/
structure Finished (t : Text) : Prop where
  filled : t ≠ []
  ended : ∀ l ∈ t.splitLines, l.ending = .lf
  first : ∀ c ∈ t.lines.head?, c.isAllBlank = false
  last : ∀ c ∈ t.lines.getLast?, c.isAllBlank = false
  emptied : ∀ c ∈ t.lines, c.isAllBlank → c = []
  code : ∀ c ∈ t.lines, c.isAllBlank = false → classifyLine .cell c = .ok .source
  undelimited : ∀ c ∈ t.lines, c.isAllBlank = false → Header.isDelimiter c = false
  unfenced : ∀ c ∈ t.lines, c.isAllBlank = false →
    ¬ List.replicate 3 '\x60' <+: c.trimStart ∧ ¬ List.replicate 3 '~' <+: c.trimStart

/-- All answers are finished, and the formatter would not change them any more. -/
structure Steady (answer : Text → Except FormatError Text) : Prop where
  finished : ∀ {s t}, answer s = .ok t → Finished t
  fixed : ∀ {s t}, answer s = .ok t → answer t = .ok t

variable {rule : HeaderRule} {kind : BlockKind} {indent : Text} {newline : Ending}
  {answer : Text → Except FormatError Text}

/-- A line of an answer as the next run reads it. -/
def answerBody (indent : Text) (newline : Ending) (t : Text) : BodyLine :=
  ⟨.source, (answerLine indent newline t).content,
    Text.stripIndent indent (answerLine indent newline t).content,
    (answerLine indent newline t).ending⟩

/-- A run around an answer, as the next run reads it. -/
def Run.reread (r : Run) (indent : Text) (newline : Ending) (t : Text) : List BodyLine :=
  r.leading ++ (t.lines.map (answerBody indent newline) ++ r.trailing)

/-- The segment that the next run finds in the place of one. -/
def Segment.again (answer : Text → Except FormatError Text) (indent : Text) (newline : Ending) :
    Segment → Segment
  | .artifact l => .artifact (l.again indent)
  | .source first run =>
    if (Run.ofLines run).code.isEmpty then .source first run
    else match answer (Run.ofLines run).source with
      | .ok t => .source first ((Run.ofLines run).reread indent newline t)
      | .error _ => .source first run

/-- The lines of a body as the next run reads them. -/
def linesAgain (answer : Text → Except FormatError Text) (indent : Text) (newline : Ending)
    (ls : List BodyLine) : List BodyLine :=
  ((segments ls).map (·.again answer indent newline)).flatMap Segment.lines

namespace Finished

variable {t c : Text}

theorem lines_ne_nil (h : Finished t) : t.lines ≠ [] := by
  intro hn
  apply h.filled
  rw [← Text.joinLines_splitLines t, List.map_eq_nil_iff.1 hn]
  rfl

theorem whole (h : Finished t) (hc : c ∈ t.lines) : (⟨c, .lf⟩ : Line).Whole := by
  obtain ⟨⟨d, e⟩, hl, rfl⟩ := List.mem_map.1 hc
  obtain rfl : e = .lf := h.ended _ hl
  exact (lined_splitLines t).whole_of_mem hl (by simp)

/-- The answer is made up of its lines, each ended by a line feed. -/
theorem flatMap_lines (h : Finished t) : (t.lines.flatMap fun c => c ++ ['\n']) = t := by
  conv_rhs => rw [← Text.joinLines_splitLines t]
  rw [Text.lines, List.flatMap_map, joinLines]
  refine List.flatMap_congr fun l hl => ?_
  rw [Line.text, h.ended l hl]
  rfl

theorem answerLine_eq (h : Finished t) (hi : ∀ c ∈ indent, isPadding c) (hn : newline ≠ .missing)
    (hc : c ∈ t.lines) :
    answerLine indent newline c = ⟨if c.isAllBlank then [] else indent ++ c, newline⟩ := by
  have hw := h.whole hc
  rw [answerLine]
  by_cases hb : c.isAllBlank
  · rw [if_pos hb]
    exact Line.Whole.ofText_text (l := ⟨[], newline⟩) ⟨hn, by simp, by simp⟩
  · rw [if_neg hb]
    refine Line.Whole.ofText_text (l := ⟨indent ++ c, newline⟩) ⟨hn, ?_, fun _ => ?_⟩
    · exact Text.unbroken_append hi hw.unbroken
    · have hne : c ≠ [] := by
        rintro rfl
        exact hb rfl
      rw [List.getLast?_append_of_ne_nil _ hne]
      exact hw.bare rfl

theorem answerBody_eq (h : Finished t) (hi : ∀ c ∈ indent, isPadding c) (hn : newline ≠ .missing)
    (hc : c ∈ t.lines) :
    answerBody indent newline c =
      ⟨.source, if c.isAllBlank then [] else indent ++ c, c, newline⟩ := by
  rw [answerBody, h.answerLine_eq hi hn hc]
  by_cases hb : c.isAllBlank
  · simp only [if_pos hb, Text.stripIndent_nil]
    rw [h.emptied c hc hb]
  · simp only [if_neg hb, Text.stripIndent_append]

/-- No line of an answer closes a fence. -/
theorem closes?_answerLine (h : Finished t) (hi : ∀ c ∈ indent, isPadding c)
    (hn : newline ≠ .missing) (hc : c ∈ t.lines) {o : Opener} (ho : o.WellFormed) :
    o.closes? (answerLine indent newline c).content = none := by
  rw [h.answerLine_eq hi hn hc]
  by_cases hb : c.isAllBlank
  · rw [if_pos hb]
    exact ho.closes?_of_isAllBlank rfl
  · rw [if_neg hb, Option.eq_none_iff_forall_ne_some]
    intro w hw
    have hp := ho.trimStart_of_closes? hw
    rw [Text.trimStart_append_of_blank fun c hc => isBlank_of_isPadding (hi c hc)] at hp
    obtain ⟨hu, hu'⟩ := h.unfenced c hc (by simpa using hb)
    rcases ho.marker with hm | hm
    · exact hu (hm ▸ hp)
    · exact hu' (hm ▸ hp)

end Finished

namespace Run

theorem map_line_reread (r : Run) (indent : Text) (newline : Ending) (t : Text) :
    (r.reread indent newline t).map BodyLine.line = r.written indent newline t := by
  rw [reread, written, List.map_append, List.map_append, List.append_assoc, List.map_map]
  rfl

end Run

section Again

variable (hs : Steady answer) (hi : ∀ c ∈ indent, isPadding c) (hn : newline ≠ .missing)

theorem Segment.written_source {first : Nat} {run : List BodyLine} {ls : List Line}
    (h : (Segment.source first run).written answer indent newline = .ok ls) :
    ((Run.ofLines run).code = [] ∧ ls = run.map BodyLine.line ∧
        (Segment.source first run).again answer indent newline = .source first run) ∨
      ((Run.ofLines run).code ≠ [] ∧ ∃ t, answer (Run.ofLines run).source = .ok t ∧
        ls = (Run.ofLines run).written indent newline t ∧
        (Segment.source first run).again answer indent newline =
          .source first ((Run.ofLines run).reread indent newline t)) := by
  rw [written] at h
  rw [again]
  by_cases hc : (Run.ofLines run).code.isEmpty
  · rw [if_pos hc] at h
    exact .inl ⟨by simpa using hc, (Except.ok.inj h).symm, if_pos hc⟩
  · rw [if_neg hc] at h
    refine .inr ⟨by simpa using hc, ?_⟩
    rw [if_neg hc]
    cases ha : answer (Run.ofLines run).source with
    | error e =>
      rw [ha] at h
      contradiction
    | ok t =>
      rw [ha] at h
      exact ⟨t, rfl, (Except.ok.inj h).symm, rfl⟩

/-- The lines of the segments that the next run finds are those that the run has written. -/
theorem map_line_again {segs : List Segment} {ls : List Line}
    (h : writtenLines answer indent newline segs = .ok ls) :
    ((segs.map (·.again answer indent newline)).flatMap Segment.lines).map BodyLine.line = ls := by
  induction segs generalizing ls with
  | nil => exact Except.ok.inj h
  | cons seg segs ih =>
    simp only [writtenLines, Except.bind_eq_ok_iff, Except.ok.injEq] at h
    obtain ⟨ls, hl, ms, hm, rfl⟩ := h
    rw [List.map_cons, List.flatMap_cons, List.map_append, ih hm]
    congr 1
    cases seg with
    | artifact l => exact Except.ok.inj hl
    | source first run =>
      obtain ⟨-, rfl, ha⟩ | ⟨-, t, -, rfl, ha⟩ := Segment.written_source hl
      · rw [ha]
        rfl
      · rw [ha]
        exact Run.map_line_reread _ _ _ _

theorem isArtifact_of_mem_run {run : List BodyLine} (h : ∀ l ∈ run, l.kind.isArtifact = false)
    (t : Text) :
    ∀ l ∈ (Run.ofLines run).reread indent newline t, l.kind.isArtifact = false := by
  rw [← Run.ofLines_append run] at h
  simp only [List.forall_mem_append] at h
  simp only [Run.reread, List.forall_mem_append]
  exact ⟨h.1, List.forall_mem_map.2 fun _ _ => rfl, h.2.2⟩

include hs in
theorem wellCut_again {segs : List Segment} (hc : WellCut segs) {ls : List Line}
    (h : writtenLines answer indent newline segs = .ok ls) :
    WellCut (segs.map (·.again answer indent newline)) := by
  induction segs generalizing ls with
  | nil => trivial
  | cons seg segs ih =>
    simp only [writtenLines, Except.bind_eq_ok_iff, Except.ok.injEq] at h
    obtain ⟨ls, hl, ms, hm, rfl⟩ := h
    cases seg with
    | artifact l => exact ⟨hc.1, ih hc.2 hm⟩
    | source first run =>
      obtain ⟨hr, hk, hh, hc⟩ := hc
      have hnext : ∀ l ∈ ((segs.map (·.again answer indent newline)).flatMap Segment.lines).head?,
          l.kind.isArtifact := by
        cases segs with
        | nil => simp
        | cons seg segs =>
          cases seg with
          | artifact l =>
            rintro _ ⟨⟩
            exact hc.1
          | source first' run' =>
            -- Two runs of source do not stand next to each other.
            obtain ⟨l, run', rfl⟩ := List.exists_cons_of_ne_nil hc.1
            have ha := hh l rfl
            rw [hc.2.1 l List.mem_cons_self] at ha
            contradiction
      rw [List.map_cons]
      obtain ⟨-, -, ha⟩ | ⟨-, t, ht, -, ha⟩ := Segment.written_source hl
      · rw [ha]
        exact ⟨hr, hk, hnext, ih hc hm⟩
      · rw [ha]
        refine ⟨?_, isArtifact_of_mem_run hk t, hnext, ih hc hm⟩
        rw [Run.reread, ne_eq, List.append_eq_nil_iff, List.append_eq_nil_iff, List.map_eq_nil_iff]
        exact fun he => (hs.finished ht).lines_ne_nil he.2.1

end Again

/-- A line that is source wherever it stands outside of headers and frozen parts. -/
structure BodyLine.Plain (kind : BlockKind) (indent : Text) (l : BodyLine) : Prop where
  source : l.kind = .source
  text : l.text = Text.stripIndent indent l.raw
  undelimited : Header.isDelimiter l.text = false
  code : classifyLine kind l.text = .ok .source

theorem isDelimiter_of_isAllBlank {t : Text} (h : t.isAllBlank) : Header.isDelimiter t = false := by
  rw [Header.isDelimiter, Text.trimEnd_of_blank (Text.isAllBlank_iff.1 h)]
  rfl

theorem BodyLine.plain_of_isBlank {l : BodyLine} (hk : l.kind.isArtifact = false)
    (ht : l.text = Text.stripIndent indent l.raw) (hb : l.isBlank) : l.Plain kind indent where
  source := by simpa [LineKind.isArtifact] using hk
  text := ht
  undelimited := isDelimiter_of_isAllBlank hb
  code := classifyLine_of_isAllBlank kind hb

/-- What is source in a cell is source in every block. -/
theorem classifyLine_of_cell {t : Text} (h : classifyLine .cell t = .ok .source)
    (kind : BlockKind) : classifyLine kind t = .ok .source := by
  cases kind with
  | cell => exact h
  | plain =>
    rw [classifyLine] at h ⊢
    split at h
    · exact h
    · exact h
    · simp

theorem Finished.plain_answerBody {t c : Text} (h : Finished t) (hi : ∀ c ∈ indent, isPadding c)
    (hn : newline ≠ .missing) (hc : c ∈ t.lines) :
    (answerBody indent newline c).Plain kind indent := by
  have ht : (answerBody indent newline c).text = c := by rw [h.answerBody_eq hi hn hc]
  refine ⟨rfl, rfl, ?_, ?_⟩ <;> rw [ht] <;> by_cases hb : c.isAllBlank
  · exact isDelimiter_of_isAllBlank hb
  · exact h.undelimited c hc (by simpa using hb)
  · exact classifyLine_of_isAllBlank kind hb
  · exact classifyLine_of_cell (h.code c hc (by simpa using hb)) kind

namespace Reads

theorem of_plain {p : Phase} (hp : p = .options ∨ p = .code ∨ p = .first) {ls : List BodyLine}
    (hne : ls ≠ []) (h : ∀ l ∈ ls, l.Plain kind indent) : Reads rule kind indent p ls .code := by
  induction ls generalizing p with
  | nil => exact absurd rfl hne
  | cons l ls ih =>
    obtain ⟨hl, h⟩ := List.forall_mem_cons.1 h
    have hd : p = .options ∨ p = .code ∨ (p = .first ∧ Header.isDelimiter l.text = false) :=
      hp.imp_right fun hp => hp.imp_right fun hp => ⟨hp, hl.undelimited⟩
    have hstep : p.step rule kind l.text = .ok (l.kind, .code) := by
      rw [Phase.step_of_source hd hl.code, hl.source]
    have htags : lineTags l.kind l.text = .ok none := by
      rw [hl.source]
      rfl
    refine .cons hl.text hstep htags ?_
    cases ls with
    | nil => exact .nil
    | cons m ms => exact ih (.inr (.inl rfl)) (by simp) h

/-- A run of source leads into code. -/
theorem eq_code_of_run {p q : Phase} {run : List BodyLine} (hne : run ≠ [])
    (hk : ∀ l ∈ run, l.kind.isArtifact = false) (h : Reads rule kind indent p run q) :
    q = .code ∧ (p = .options ∨ p = .code ∨ p = .first) := by
  induction run generalizing p with
  | nil => exact absurd rfl hne
  | cons l run ih =>
    obtain ⟨hl, hk⟩ := List.forall_mem_cons.1 hk
    cases h with
    | cons text step tagged rest =>
      have hs : l.kind = .source := by simpa [LineKind.isArtifact] using hl
      rw [hs] at step
      obtain ⟨rfl, hp⟩ := Phase.eq_code_of_step step
      refine ⟨?_, hp.imp_right fun hp => hp.imp_right And.left⟩
      cases run with
      | nil => cases rest; rfl
      | cons m ms => exact (ih (by simp) hk rest).1

end Reads

/-- A phase from which no header can start before the given lines. -/
def Phase.Calm (p : Phase) (ls : List BodyLine) : Prop :=
  p = .options ∨ p = .code ∨ p = .frozen ∨
    (p = .first ∧ ∀ l ∈ ls.head?, Header.isDelimiter l.text = false)

theorem Phase.Calm.step {p next : Phase} {l : BodyLine} {ls ms : List BodyLine} {k : LineKind}
    (hp : p.Calm (l :: ls)) (h : p.step rule kind l.text = .ok (k, next)) : next.Calm ms := by
  have hd : p = .frozen ∨
      (p = .options ∨ p = .code ∨ (p = .first ∧ Header.isDelimiter l.text = false)) := by
    rcases hp with rfl | rfl | rfl | ⟨rfl, hd⟩
    · exact .inr (.inl rfl)
    · exact .inr (.inr (.inl rfl))
    · exact .inl rfl
    · exact .inr (.inr (.inr ⟨rfl, hd l rfl⟩))
  rcases hd with rfl | hd
  · obtain ⟨-, rfl⟩ := Prod.mk.inj (Except.ok.inj h)
    exact .inr (.inr (.inl rfl))
  · rw [Phase.step_directive hd] at h
    split at h
    · next k' _ =>
      rw [← (Prod.mk.inj (Except.ok.inj h)).2]
      cases k' <;> cases p != .code <;> simp [Phase.Calm]
    · contradiction

theorem Phase.Calm.inHeader {p : Phase} {ls : List BodyLine} (h : p.Calm ls) :
    p.inHeader = false := by
  rcases h with rfl | rfl | rfl | ⟨rfl, -⟩ <;> rfl

section Read

variable (hs : Steady answer) (hi : ∀ c ∈ indent, isPadding c) (hn : newline ≠ .missing)

include hs hi hn

theorem reads_run_again {first : Nat} {run : List BodyLine} (hne : run ≠ [])
    (hk : ∀ l ∈ run, l.kind.isArtifact = false) {ls : List Line}
    (hw : (Segment.source first run).written answer indent newline = .ok ls) {p q : Phase}
    (h : Reads rule kind indent p run q) :
    Reads rule kind indent p
      ((Segment.source first run).again answer indent newline).lines q := by
  obtain ⟨-, -, ha⟩ | ⟨-, t, ht, -, ha⟩ := Segment.written_source hw
  · rw [ha]
    exact h
  · obtain ⟨rfl, hp⟩ := Reads.eq_code_of_run hne hk h
    have hf := hs.finished ht
    have htext := h.text_of_mem
    rw [ha]
    rw [← Run.ofLines_append run] at hk htext
    simp only [List.forall_mem_append] at hk htext
    apply Reads.of_plain hp
    · rw [Segment.lines, Run.reread, ne_eq, List.append_eq_nil_iff, List.append_eq_nil_iff,
        List.map_eq_nil_iff]
      exact fun he => hf.lines_ne_nil he.2.1
    · simp only [Segment.lines, Run.reread, List.forall_mem_append]
      refine ⟨fun l hl => ?_, List.forall_mem_map.2 fun c hc => ?_, fun l hl => ?_⟩
      · exact BodyLine.plain_of_isBlank (hk.1 l hl) (htext.1 l hl) (Run.isBlank_leading l hl)
      · exact hf.plain_answerBody hi hn hc
      · exact BodyLine.plain_of_isBlank (hk.2.2 l hl) (htext.2.2 l hl)
          (Run.isBlank_trailing l hl)

/-- Segments outside of headers are read as before after a run. -/
theorem reads_again {segs : List Segment} (hc : WellCut segs)
    (hl : ∀ l ∈ segs.flatMap Segment.lines, l.line.Whole) {ls : List Line}
    (hw : writtenLines answer indent newline segs = .ok ls) {p q : Phase}
    (hp : p.Calm (segs.flatMap Segment.lines))
    (h : Reads rule kind indent p (segs.flatMap Segment.lines) q) :
    Reads rule kind indent p
      ((segs.map (·.again answer indent newline)).flatMap Segment.lines) q := by
  induction segs generalizing p ls with
  | nil => exact h
  | cons seg segs ih =>
    simp only [writtenLines, Except.bind_eq_ok_iff, Except.ok.injEq] at hw
    obtain ⟨ls, hseg, ms, hsegs, rfl⟩ := hw
    rw [List.flatMap_cons] at hl hp h
    rw [List.map_cons, List.flatMap_cons]
    rw [List.forall_mem_append] at hl
    cases seg with
    | artifact l =>
      cases h with
      | cons text step tagged rest =>
        have hwl := hl.1 l List.mem_cons_self
        refine .cons rfl (Phase.step_again hi hwl text hc.1 hp.inHeader step)
          (lineTags_again hi hwl text tagged) (ih hc.2 hl.2 hsegs (hp.step step) rest)
    | source first run =>
      obtain ⟨m, hm, hr⟩ := h.split
      obtain ⟨hne, hk, -, hc⟩ := hc
      refine (reads_run_again hs hi hn hne hk hseg hm).append (ih hc hl.2 hsegs ?_ hr)
      rw [(Reads.eq_code_of_run hne hk hm).1]
      exact .inr (.inl rfl)

end Read

/-- The lines between the delimiters of the header that a body starts with, if it has one. -/
def headerLines : List BodyLine → List BodyLine
  | [] => []
  | l :: ls =>
    if l.kind == .cellOption && Header.isDelimiter l.text then
      ls.takeWhile fun l => !Header.isDelimiter l.text
    else []

/-- The lines up to the first delimiter. -/
theorem takeWhile_isDelimiter {f : BodyLine → Text} {hs : List BodyLine} {e : BodyLine}
    (h : ∀ l ∈ hs, Header.isDelimiter (f l) = false) (he : Header.isDelimiter (f e))
    (rest : List BodyLine) :
    (hs ++ e :: rest).takeWhile (fun l => !Header.isDelimiter (f l)) = hs := by
  rw [List.takeWhile_append_of_pos fun l hl => by simp [h l hl], List.takeWhile_cons, he]
  simp

/-- A body either has no header, or starts with one that is accepted. -/
theorem Reads.header_cases {ls : List BodyLine} {last : Phase}
    (h : Reads rule kind indent (.initial kind) ls last) (hl : last.inHeader = false) :
    ((Phase.initial kind).Calm ls ∧ headerLines ls = []) ∨
      (kind = .cell ∧ ∃ d hs e rest, ls = d :: (hs ++ e :: rest) ∧ d.InHeader indent true ∧
        (∀ l ∈ hs, l.InHeader indent false) ∧ e.InHeader indent true ∧
        Header.check rule (hs.map BodyLine.text) = .ok () ∧
        Reads rule kind indent .options rest last ∧ headerLines ls = hs) := by
  cases ls with
  | nil =>
    refine .inl ⟨?_, rfl⟩
    cases kind <;> simp [Phase.Calm, Phase.initial]
  | cons d ls =>
    cases h with
    | @cons _ next _ _ _ tags text step tagged rest =>
      cases kind with
      | plain =>
        refine .inl ⟨.inr (.inl rfl), ?_⟩
        have hk : d.kind ≠ .cellOption := by
          rw [Phase.initial, Phase.step_directive (.inr (.inl rfl))] at step
          intro hk
          split at step
          · next k _ =>
            rw [hk] at step
            have hk := Except.ok.inj step
            cases k <;> simp [Phase.ofKind] at hk
          · contradiction
        rw [headerLines, if_neg (by simp [hk])]
      | cell =>
        by_cases hd : Header.isDelimiter d.text
        · rw [Phase.initial, Phase.step, if_pos hd] at step
          obtain ⟨hk, rfl⟩ := Prod.mk.inj (Except.ok.inj step)
          obtain ⟨hs, e, rest', rfl, hh, he, hc, hr, -⟩ := reads_header_iff.1 ⟨rest, hl⟩
          refine .inr ⟨rfl, d, hs, e, rest', rfl, ⟨hk.symm, text, hd⟩, hh, he, hc, hr, ?_⟩
          rw [headerLines, ← hk, hd]
          exact takeWhile_isDelimiter (fun l hm => (hh l hm).delimits) he.delimits rest'
        · refine .inl ⟨.inr (.inr (.inr ⟨rfl, ?_⟩)), ?_⟩
          · rintro _ ⟨⟩
            simpa using hd
          · rw [headerLines, if_neg (by simp [hd])]

theorem writtenLines_artifacts {hs : List BodyLine} {segs : List Segment} {ls : List Line}
    (h : writtenLines answer indent newline (hs.map .artifact ++ segs) = .ok ls) :
    ∃ ms, writtenLines answer indent newline segs = .ok ms := by
  induction hs generalizing ls with
  | nil => exact ⟨ls, h⟩
  | cons l hs ih =>
    simp only [List.map_cons, List.cons_append, writtenLines, Except.bind_eq_ok_iff] at h
    obtain ⟨-, -, ms, hm, -⟩ := h
    exact ih hm

theorem flatMap_lines_again_artifacts (hs : List BodyLine) (segs : List Segment) :
    ((hs.map Segment.artifact ++ segs).map (·.again answer indent newline)).flatMap Segment.lines =
      hs.map (BodyLine.again indent) ++
        (segs.map (·.again answer indent newline)).flatMap Segment.lines := by
  induction hs with
  | nil => rfl
  | cons l hs ih =>
    rw [List.map_cons, List.cons_append, List.map_cons, List.flatMap_cons, ih]
    rfl

/-- The segments of a body with a header, and what becomes of them. -/
theorem segments_header (answer : Text → Except FormatError Text) (newline : Ending)
    {d e : BodyLine} {hs : List BodyLine} (hd : d.InHeader indent true)
    (hh : ∀ l ∈ hs, l.InHeader indent false) (he : e.InHeader indent true)
    (rest : List BodyLine) :
    ∃ i, segments (d :: (hs ++ e :: rest)) =
        (d :: (hs ++ [e])).map .artifact ++ segmentsFrom i rest ∧
      linesAgain answer indent newline (d :: (hs ++ e :: rest)) =
        d.again indent :: (hs.map (BodyLine.again indent) ++ e.again indent ::
          ((segmentsFrom i rest).map (·.again answer indent newline)).flatMap Segment.lines) := by
  have hart : ∀ l ∈ d :: (hs ++ [e]), l.kind.isArtifact := by
    simp only [List.forall_mem_cons, List.forall_mem_append]
    exact ⟨by rw [hd.option]; rfl, fun l hl => by rw [(hh l hl).option]; rfl,
      by rw [he.option]; rfl, by simp⟩
  have hcut : segments (d :: (hs ++ e :: rest)) =
      (d :: (hs ++ [e])).map .artifact ++ segmentsFrom (0 + (d :: (hs ++ [e])).length) rest := by
    rw [← segmentsFrom_artifacts hart]
    simp [segments]
  refine ⟨_, hcut, ?_⟩
  rw [linesAgain, hcut, flatMap_lines_again_artifacts, List.map_cons, List.map_append,
    List.map_singleton, List.cons_append, List.append_assoc, List.singleton_append]

/-- Lines with the same texts have the same header. -/
theorem map_text_header_eq {hs hs' rest rest' : List BodyLine} {e e' : BodyLine}
    (h : (hs ++ e :: rest).map BodyLine.line = (hs' ++ e' :: rest').map BodyLine.line)
    (hh : ∀ l ∈ hs, l.InHeader indent false) (he : e.InHeader indent true)
    (hh' : ∀ l ∈ hs', l.InHeader indent false) (he' : e'.InHeader indent true) :
    hs.map BodyLine.text = hs'.map BodyLine.text := by
  have hw : ∀ {hs : List BodyLine} {e : BodyLine} (rest), (∀ l ∈ hs, l.InHeader indent false) →
      e.InHeader indent true →
      ((hs ++ e :: rest).map BodyLine.line).takeWhile
        (fun m => !Header.isDelimiter (Text.stripIndent indent m.content)) =
      hs.map BodyLine.line := by
    intro hs e rest hh he
    rw [List.takeWhile_map]
    refine congrArg _
      (takeWhile_isDelimiter (f := fun l => Text.stripIndent indent l.raw) ?_ ?_ rest)
    · intro l hl
      rw [← (hh l hl).text, (hh l hl).delimits]
    · rw [← he.text, he.delimits]
  have ht : ∀ {hs : List BodyLine}, (∀ l ∈ hs, l.InHeader indent false) →
      hs.map BodyLine.text =
        (hs.map BodyLine.line).map fun m => Text.stripIndent indent m.content := by
    intro hs hh
    rw [List.map_map]
    exact List.map_congr_left fun l hl => (hh l hl).text
  rw [ht hh, ht hh', ← hw rest hh he, h, hw rest' hh' he']

section Classify

variable (hs : Steady answer) (hi : ∀ c ∈ indent, isPadding c) (hn : newline ≠ .missing)
  {ls : List BodyLine} {last : Phase} (h : Reads rule kind indent (.initial kind) ls last)
  (hl : last.inHeader = false) (hw : ∀ l ∈ ls, l.line.Whole) {ms : List Line}
  (hm : writtenLines answer indent newline (segments ls) = .ok ms)

include hi h hl hw hm

include hs hn in
/-- If the header is still accepted, the lines after a run are read as what they were. -/
theorem reads_initial_again
    (hc : Header.check rule ((headerLines ls).map fun l => (l.again indent).text) = .ok ()) :
    Reads rule kind indent (.initial kind) (linesAgain answer indent newline ls) last := by
  rcases h.header_cases hl with ⟨hp, -⟩ | ⟨rfl, d, hds, e, rest, rfl, hd, hh, he, -, hr, hhead⟩
  · have hseg := flatMap_lines_segmentsFrom 0 ls
    refine reads_again hs hi hn (wellCut_segmentsFrom 0 ls) ?_ hm ?_ ?_ <;> rw [hseg]
    · exact hw
    · exact hp
    · exact h
  · obtain ⟨i, hcut, hagain⟩ := segments_header answer newline hd hh he rest
    rw [hcut] at hm
    obtain ⟨ms', hm'⟩ := writtenLines_artifacts hm
    have hrest := flatMap_lines_segmentsFrom i rest
    simp only [List.forall_mem_cons, List.forall_mem_append] at hw
    have hro := reads_again hs hi hn (wellCut_segmentsFrom i rest) (by rw [hrest]; exact hw.2.2.2)
      hm' (p := .options) (.inl rfl) (by rw [hrest]; exact hr)
    have hda := hd.again hi hw.1
    rw [hhead] at hc
    rw [hagain]
    have hstep : (Phase.initial .cell).step rule .cell (d.again indent).text =
        .ok ((d.again indent).kind, .header []) := by
      rw [Phase.initial, Phase.step, if_pos hda.delimits, hda.option]
    refine .cons hda.text hstep hda.untagged (reads_header_iff.2
      ⟨hds.map (BodyLine.again indent), e.again indent, _, rfl, ?_, he.again hi hw.2.2.1, ?_, hro,
        hl⟩).1
    · exact List.forall_mem_map.2 fun l hm => (hh l hm).again hi (hw.2.1 l hm)
    · rwa [List.nil_append, List.map_map]

/-- If the lines after a run can be read, the header in them is accepted. -/
theorem check_of_classify_again {c : Body} (hc : Body.classify rule kind indent ms = .ok c) :
    Header.check rule ((headerLines ls).map fun l => (l.again indent).text) = .ok () := by
  rcases h.header_cases hl with ⟨-, hhead⟩ | ⟨rfl, d, hds, e, rest, rfl, hd, hh, he, -, -, hhead⟩
  · rw [hhead]
    rfl
  obtain ⟨hlines, last', hr, hl'⟩ := Body.classify_eq_ok hc
  obtain ⟨i, -, hagain⟩ := segments_header answer newline hd hh he rest
  simp only [List.forall_mem_cons, List.forall_mem_append] at hw
  have hsame : (linesAgain answer indent newline _).map BodyLine.line = ms := map_line_again hm
  rw [← hsame, hagain] at hlines
  generalize c.lines = bs at hlines hr
  cases hr with
  | nil => contradiction
  | @cons _ next _ b bs tags text step tagged hr =>
    rw [List.map_cons, List.map_cons, List.cons.injEq] at hlines
    have hb : Header.isDelimiter b.text := by
      have hraw : b.raw = (d.again indent).raw := congrArg Line.content hlines.1
      rw [text, hraw]
      exact (hd.again hi hw.1).delimits
    rw [Phase.initial, Phase.step, if_pos hb] at step
    obtain ⟨-, rfl⟩ := Prod.mk.inj (Except.ok.inj step)
    obtain ⟨hs, e', rest', rfl, hh', he', hcheck, -⟩ := reads_header_iff.1 ⟨hr, hl'⟩
    have hsame := map_text_header_eq hlines.2 hh' he'
      (List.forall_mem_map.2 fun l hm => (hh l hm).again hi (hw.2.1 l hm)) (he.again hi hw.2.2.1)
    rwa [List.nil_append, hsame, List.map_map, ← hhead] at hcheck

include hs hn in
theorem exists_classify_again
    (hc : Header.check rule ((headerLines ls).map fun l => (l.again indent).text) = .ok ()) :
    ∃ tags, Body.classify rule kind indent ms = .ok ⟨linesAgain answer indent newline ls, tags⟩ :=
  Body.exists_classifyFrom_iff.2
    ⟨map_line_again hm, last, reads_initial_again hs hi hn h hl hw hm hc, hl⟩

end Classify

end FencedCode
