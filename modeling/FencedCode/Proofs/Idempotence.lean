import FencedCode.Proofs.Rewriting

/-! A second run after a run. Formatting twice is formatting once, unless the first run lays bare a
carriage return before a line feed: this one return becomes a part of the line's ending, and the
exact conditions are given under which nothing follows from it. -/
namespace FencedCode

variable {σ : Type} {rule : HeaderRule} {answer : Text → Except FormatError Text}

/-- What keeps a body as a run has written it, although artifacts in it have laid bare a carriage
return: `opened` are the fences that are open there. -/
structure Harmless (rule : HeaderRule) (indent : Text) (opened : List Opener)
    (ls : List BodyLine) : Prop where
  /-- There is no more space to be trimmed before the carriage return. -/
  trimmed : ∀ l ∈ ls, l.uncovers → l.settled.content.trimPadding = l.settled.content
  /-- If the first line ends otherwise now, there is no code that would get its ending. -/
  uncoded : (∃ l ∈ ls.head?, l.uncovers) → ∀ l ∈ ls, l.kind.isArtifact ∨ l.isBlank
  /-- The header is accepted without the carriage returns. -/
  accepted : Header.check rule ((headerLines ls).map fun l => (l.again indent).text) = .ok ()
  /-- No line closes a fence for want of its carriage return. -/
  unclosing : ∀ l ∈ ls, l.uncovers → ∀ o ∈ opened, o.closes? l.settled.content = none

instance (rule : HeaderRule) (indent : Text) (opened : List Opener) (ls : List BodyLine) :
    Decidable (Harmless rule indent opened ls) :=
  decidable_of_iff
    ((∀ l ∈ ls, l.uncovers → l.settled.content.trimPadding = l.settled.content) ∧
      ((∃ l ∈ ls.head?, l.uncovers) → ∀ l ∈ ls, l.kind.isArtifact ∨ l.isBlank) ∧
      Header.check rule ((headerLines ls).map fun l => (l.again indent).text) = .ok () ∧
      ∀ l ∈ ls, l.uncovers → ∀ o ∈ opened, o.closes? l.settled.content = none)
    ⟨fun h => ⟨h.1, h.2.1, h.2.2.1, h.2.2.2⟩,
      fun h => ⟨h.trimmed, h.uncoded, h.accepted, h.unclosing⟩⟩

/-- A header that is accepted stays so without the spaces and tabs at the ends of its lines. -/
def AllowsTrimming (rule : HeaderRule) : Prop :=
  ∀ lines : List Text, (∀ t ∈ lines, '\n' ∉ t) → rule (Header.text lines) = .ok () →
    rule (Header.text (lines.map Text.trimPadding)) = .ok ()

theorem AllowsTrimming.check (hr : AllowsTrimming rule) {lines : List Text}
    (hn : ∀ t ∈ lines, '\n' ∉ t) (h : Header.check rule lines = .ok ()) :
    Header.check rule (lines.map Text.trimPadding) = .ok () := by
  have hsub : Header.text (lines.map Text.trimPadding) ⊆ Header.text lines := by
    intro c hc
    rw [Header.text, List.flatMap_map, List.mem_flatMap] at hc
    obtain ⟨t, ht, hc⟩ := hc
    refine List.mem_flatMap.2 ⟨t, ht, ?_⟩
    exact List.mem_append.2 ((List.mem_append.1 hc).imp_left Text.mem_of_mem_trimPadding)
  rw [Header.check] at h ⊢
  split
  · rfl
  · next hb =>
    refine hr lines hn ?_
    rw [if_neg] at h
    · exact h
    · intro hall
      exact hb (Text.isAllBlank_iff.2 fun c hc => Text.isAllBlank_iff.1 hall c (hsub hc))

namespace Opener

variable {o : Opener} {body : List Line} {c : Body} {ls : List Line}

theorem settles_iff (hs : Steady answer) (ho : o.WellFormed) (hw : ∀ l ∈ c.lines, l.line.Whole)
    (hm : writtenLines answer o.indent (newlineOf c.lines) (segments c.lines) = .ok ls) :
    (∀ l ∈ c.lines, l.Settles (newlineOf c.lines)
        (newlineOf (linesAgain answer o.indent (newlineOf c.lines) c.lines))) ↔
      (∀ l ∈ c.lines, l.uncovers → l.settled.content.trimPadding = l.settled.content) ∧
        ((∃ l ∈ c.lines.head?, l.uncovers) → ∀ l ∈ c.lines, l.kind.isArtifact ∨ l.isBlank) := by
  have hn := newlineOf_again_eq_iff hs ho.indent hw hm
  constructor
  · intro h
    constructor
    · intro l hl hu
      have ha : l.kind.isArtifact := by
        rw [BodyLine.uncovers, Bool.and_eq_true] at hu
        exact hu.1
      have hset := h l hl
      rw [BodyLine.Settles, if_pos ha] at hset
      exact hset hu
    · rintro ⟨f, hf, hu⟩ l hl
      by_cases ha : l.kind.isArtifact
      · exact .inl ha
      · have hset := h l hl
        rw [BodyLine.Settles, if_neg ha] at hset
        refine .inr (hset.resolve_left fun he => ?_)
        rw [hn.1 he f hf] at hu
        contradiction
  · rintro ⟨ht, hc⟩ l hl
    rw [BodyLine.Settles]
    split
    · exact ht l hl
    · next ha =>
      by_cases hh : ∃ l ∈ c.lines.head?, l.uncovers
      · exact .inr ((hc hh l hl).resolve_left ha)
      · refine .inl (hn.2 fun f hf => ?_)
        by_contra hu
        exact hh ⟨f, hf, by simpa using hu⟩

/-- The next run writes a body that a run has written as it is, exactly if its artifacts settle and
its header is still accepted; and if it writes one, then with as many lines. -/
theorem written_again (hs : Steady answer) (ho : o.WellFormed) (hb : ∀ l ∈ body, l.Whole)
    (hc : Body.classify rule o.kind o.indent body = .ok c)
    (h : o.written rule answer body = .ok ls) :
    (o.written rule answer ls = .ok ls ↔
      ((∀ l ∈ c.lines, l.uncovers → l.settled.content.trimPadding = l.settled.content) ∧
        ((∃ l ∈ c.lines.head?, l.uncovers) → ∀ l ∈ c.lines, l.kind.isArtifact ∨ l.isBlank)) ∧
      Header.check rule ((headerLines c.lines).map fun l => (l.again o.indent).text) = .ok ()) ∧
    ∀ ms, o.written rule answer ls = .ok ms → ms.length = ls.length := by
  obtain ⟨hmap, last, hr, hl⟩ := Body.classify_eq_ok hc
  have hw : ∀ l ∈ c.lines, l.line.Whole := by
    rw [← List.forall_mem_map (f := BodyLine.line), hmap]
    exact hb
  have hn := newlineOf_ne_missing c.lines
  have hm : writtenLines answer o.indent (newlineOf c.lines) (segments c.lines) = .ok ls := by
    rw [written, hc] at h
    exact h
  have hflat := flatMap_lines_segmentsFrom 0 c.lines
  rw [← settles_iff hs ho hw hm]
  by_cases hcheck :
      Header.check rule ((headerLines c.lines).map fun l => (l.again o.indent).text) = .ok ()
  · obtain ⟨tags, hcl⟩ := exists_classify_again hs ho.indent hn hr hl hw hm hcheck
    have hcut := wellCut_again hs (wellCut_segmentsFrom 0 c.lines) hm
    obtain ⟨ms, hms, hlen, hiff⟩ := exists_writtenLines_again hs ho.indent hn
      (newlineOf_ne_missing (linesAgain answer o.indent (newlineOf c.lines) c.lines))
      (wellCut_segmentsFrom 0 c.lines) (by rw [hflat]; exact hw) hm
    rw [hflat] at hiff
    have hwritten : o.written rule answer ls = .ok ms := by
      rw [written, hcl]
      exact (writtenLines_segments hcut).trans hms
    rw [hwritten]
    refine ⟨?_, fun ms' h' => Except.ok.inj h' ▸ hlen⟩
    rw [Except.ok.injEq, hiff, and_iff_left hcheck]
  · have herr : ∀ ms, o.written rule answer ls ≠ .ok ms := by
      intro ms hms
      obtain ⟨c', hc', -⟩ := Except.bind_eq_ok_iff.1 hms
      exact hcheck (check_of_classify_again ho.indent hr hl hw hm hc')
    exact ⟨iff_of_false (herr ls) fun h => hcheck h.2, fun ms hms => absurd hms (herr ms)⟩

/-- No line that a run writes for a body closes a fence, but for those that have lost a carriage
return. -/
theorem closes?_written_iff (hs : Steady answer) {indent : Text} (hi : ∀ c ∈ indent, isPadding c)
    {newline : Ending} (hn : newline ≠ .missing) {os : List Opener}
    (hos : ∀ p ∈ os, p.WellFormed) {segs : List Segment} (hcut : WellCut segs)
    (hw : ∀ l ∈ segs.flatMap Segment.lines, l.line.Whole)
    (hclosed : ∀ l ∈ segs.flatMap Segment.lines, ∀ p ∈ os, p.closes? l.raw = none)
    (h : writtenLines answer indent newline segs = .ok ls) :
    (∀ m ∈ ls, ∀ p ∈ os, p.closes? m.content = none) ↔
      ∀ l ∈ segs.flatMap Segment.lines, l.uncovers →
        ∀ p ∈ os, p.closes? l.settled.content = none := by
  induction segs generalizing ls with
  | nil =>
    obtain rfl := Except.ok.inj h
    simp
  | cons seg segs ih =>
    simp only [writtenLines, Except.bind_eq_ok_iff, Except.ok.injEq] at h
    obtain ⟨ls, hseg, ms, hsegs, rfl⟩ := h
    rw [List.flatMap_cons, List.forall_mem_append] at hw hclosed
    rw [List.flatMap_cons, List.forall_mem_append, List.forall_mem_append,
      ih hcut.cons.2 hw.2 hclosed.2 hsegs]
    refine and_congr_left fun _ => ?_
    cases seg with
    | artifact l =>
      obtain rfl := Except.ok.inj hseg
      simp only [Segment.lines, List.mem_singleton, forall_eq]
      refine ⟨fun h _ => h, fun h => ?_⟩
      by_cases hu : l.uncovers
      · exact h hu
      · intro p hp
        have hraw := hclosed.1 l List.mem_cons_self p hp
        rcases BodyLine.settled_cases (hw.1 l List.mem_cons_self) with he | ⟨-, he, d, -, he'⟩
        · rw [he, BodyLine.preserved]
          split
          · exact hraw
          · exact (hos p hp).closes?_trimPadding hraw
        · exact absurd (by simp [BodyLine.uncovers, hcut.1, he, he']) hu
    | source first run =>
      have hu : ∀ l ∈ run, l.uncovers = false := by
        intro l hl
        simp [BodyLine.uncovers, hcut.2.1 l hl]
      refine iff_of_true ?_ fun l hl hul => absurd hul (by simp [hu l hl])
      have hline : ∀ l ∈ run, ∀ p ∈ os, p.closes? l.line.content = none := hclosed.1
      obtain ⟨-, rfl, -⟩ | ⟨-, t, ht, rfl, -⟩ := Segment.written_source hseg
      · exact List.forall_mem_map.2 hline
      · rw [← Run.ofLines_append run] at hline
        simp only [List.forall_mem_append] at hline
        simp only [Run.written, List.forall_mem_append, List.forall_mem_map]
        refine ⟨⟨hline.1, fun c hc p hp => ?_⟩, hline.2.2⟩
        exact (hs.finished ht).closes?_answerLine hi hn hc (hos p hp)

/-- A body that a run has written is harmless exactly if it closes no fence and the next run writes
it without a fault, as it is. -/
theorem harmless_iff (hs : Steady answer) (ho : o.WellFormed) (hb : ∀ l ∈ body, l.Whole)
    {os : List Opener} (hos : ∀ p ∈ os, p.WellFormed)
    (hclosed : ∀ m ∈ body, ∀ p ∈ os, p.closes? m.content = none)
    (hc : Body.classify rule o.kind o.indent body = .ok c)
    (h : o.written rule answer body = .ok ls) :
    Harmless rule o.indent os c.lines ↔
      (∀ m ∈ ls, ∀ p ∈ os, p.closes? m.content = none) ∧ o.written rule answer ls = .ok ls := by
  have hmap := (Body.classify_eq_ok hc).1
  have hflat := flatMap_lines_segmentsFrom 0 c.lines
  have hm : writtenLines answer o.indent (newlineOf c.lines) (segmentsFrom 0 c.lines) = .ok ls := by
    rw [written, hc] at h
    exact h
  rw [← hmap, List.forall_mem_map] at hb hclosed
  have hi := closes?_written_iff hs ho.indent (newlineOf_ne_missing c.lines) hos
    (wellCut_segmentsFrom 0 c.lines) (by rw [hflat]; exact hb) (by rw [hflat]; exact hclosed) hm
  rw [hflat] at hi
  rw [hi, (written_again hs ho (by rw [← hmap]; exact List.forall_mem_map.2 hb) hc h).1]
  constructor
  · intro h
    exact ⟨h.unclosing, ⟨h.trimmed, h.uncoded⟩, h.accepted⟩
  · rintro ⟨hclosing, ⟨htrimmed, huncoded⟩, haccepted⟩
    exact ⟨htrimmed, huncoded, haccepted, hclosing⟩

/-- What a second run does to the body of a block: it is stable exactly if it is harmless, it keeps
its number of lines in any case, and a fault stays. -/
theorem bodyAfter_again (rule : HeaderRule) (hs : Steady answer) (ho : o.WellFormed)
    (hb : ∀ l ∈ body, l.Whole) {os : List Opener} (hos : ∀ p ∈ os, p.WellFormed)
    (hclosed : ∀ m ∈ body, ∀ p ∈ os, p.closes? m.content = none) (languages : List Text) :
    (((∀ m ∈ o.bodyAfter rule answer languages body, ∀ p ∈ os, p.closes? m.content = none) ∧
        o.bodyAfter rule answer languages (o.bodyAfter rule answer languages body) =
          o.bodyAfter rule answer languages body ∧
        o.fault? rule answer languages (o.bodyAfter rule answer languages body) =
          o.fault? rule answer languages body) ↔
      (languages.elem o.language → ∀ c, Body.classify rule o.kind o.indent body = .ok c →
        (∃ ls, o.written rule answer body = .ok ls) → Harmless rule o.indent os c.lines)) ∧
    (o.bodyAfter rule answer languages (o.bodyAfter rule answer languages body)).length =
      (o.bodyAfter rule answer languages body).length ∧
    ((o.fault? rule answer languages body).isSome →
      o.fault? rule answer languages (o.bodyAfter rule answer languages body) =
        o.fault? rule answer languages body) := by
  by_cases hl : languages.elem o.language
  · cases hw : o.written rule answer body with
    | error fault =>
      have hbody : o.bodyAfter rule answer languages body = body := by
        rw [bodyAfter, if_pos hl, hw]
      simp only [hbody]
      exact ⟨iff_of_true ⟨hclosed, trivial, trivial⟩ (by simp), trivial, by simp⟩
    | ok ls =>
      obtain ⟨c, hc, -⟩ := Except.bind_eq_ok_iff.1 hw
      have hbody : o.bodyAfter rule answer languages body = ls := by
        rw [bodyAfter, if_pos hl, hw]
      have hfault : o.fault? rule answer languages body = none := by
        rw [fault?, if_pos hl, hw]
      have hlen := (written_again hs ho hb hc hw).2
      have hharm := harmless_iff hs ho hb hos hclosed hc hw
      have hsame : (o.bodyAfter rule answer languages ls = ls ∧
          o.fault? rule answer languages ls = none) ↔ o.written rule answer ls = .ok ls := by
        rw [bodyAfter, fault?, if_pos hl, if_pos hl]
        cases o.written rule answer ls <;> simp
      rw [hbody, hfault, hsame, ← hharm]
      refine ⟨⟨?_, fun h => h hl c hc ⟨ls, rfl⟩⟩, ?_, by simp⟩
      · rintro h - c' hc' -
        obtain rfl := Except.ok.inj (hc.symm.trans hc')
        exact h
      · rw [bodyAfter, if_pos hl]
        cases hms : o.written rule answer ls with
        | error fault => rfl
        | ok ms => exact hlen ms hms
  · have hbody : o.bodyAfter rule answer languages body = body := by rw [bodyAfter, if_neg hl]
    simp only [hbody]
    exact ⟨iff_of_true ⟨hclosed, trivial, trivial⟩ fun h => absurd h hl, trivial, by simp⟩

/-- A body in which no carriage return is laid bare is harmless. -/
theorem harmless_of_covered (hr : AllowsTrimming rule) (ho : o.WellFormed)
    (hb : ∀ l ∈ body, l.Whole) {os : List Opener}
    (hc : Body.classify rule o.kind o.indent body = .ok c)
    (hu : ∀ l ∈ c.lines, l.uncovers = false) : Harmless rule o.indent os c.lines := by
  obtain ⟨hmap, last, hread, hl⟩ := Body.classify_eq_ok hc
  rw [← hmap, List.forall_mem_map] at hb
  constructor
  · intro l hm h
    exact absurd h (by simp [hu l hm])
  · rintro ⟨l, hm, h⟩
    exact absurd h (by simp [hu l (List.mem_of_mem_head? hm)])
  · rcases hread.header_cases hl with ⟨-, hhead⟩ |
      ⟨-, d, hds, e, rest, hlines, -, hh, -, hcheck, -, hhead⟩
    · rw [hhead]
      rfl
    · have hmem : ∀ l ∈ hds, l ∈ c.lines := by
        intro l hm
        rw [hlines]
        simp [hm]
      have htext : ∀ l ∈ hds, (l.again o.indent).text = l.text.trimPadding := by
        intro l hm
        have hset : l.settled = ⟨l.preserved, l.ending⟩ := by
          rcases BodyLine.settled_cases (hb l (hmem l hm)) with he | ⟨-, he, d, -, he'⟩
          · exact he
          · have hu := hu l (hmem l hm)
            simp [BodyLine.uncovers, (hh l hm).option, he, he', LineKind.isArtifact] at hu
        rw [BodyLine.again, hset, BodyLine.preserved, (hh l hm).option, (hh l hm).text]
        exact Text.stripIndent_trimPadding ho.indent l.raw
      rw [hhead, List.map_congr_left htext]
      have hn : ∀ t ∈ hds.map BodyLine.text, '\n' ∉ t := by
        rw [List.forall_mem_map]
        intro l hm
        rw [(hh l hm).text]
        exact mt (Text.mem_of_mem_stripIndent ho.indent) (hb l (hmem l hm)).unbroken
      have ht := hr.check hn hcheck
      rwa [List.map_map] at ht
  · intro l hm h
    exact absurd h (by simp [hu l hm])

end Opener

/-- If no value is lost, then as many are left only if none has come in. -/
theorem filterMap_eq_iff_of_isSome {α β : Type} {g h : α → Option β} {xs : List α}
    (hk : ∀ x ∈ xs, (g x).isSome → h x = g x) :
    xs.filterMap h = xs.filterMap g ↔ ∀ x ∈ xs, h x = g x := by
  induction xs with
  | nil => simp
  | cons x xs ih =>
    obtain ⟨hx, hk⟩ := List.forall_mem_cons.1 hk
    rw [List.forall_mem_cons, ← ih hk]
    cases hg : g x with
    | some y =>
      rw [hg] at hx
      have hh := hx rfl
      simp [hg, hh]
    | none =>
      cases hh : h x with
      | none => simp [hg, hh]
      | some z =>
        refine iff_of_false (fun he => ?_) (by simp)
        have hlen : (xs.filterMap g).length ≤ (xs.filterMap h).length := by
          rw [List.length_filterMap_eq_countP, List.length_filterMap_eq_countP]
          refine List.countP_mono_left fun x hm hsome => ?_
          rwa [hk x hm hsome]
        rw [List.filterMap_cons_some hh, List.filterMap_cons_none hg] at he
        rw [← he, List.length_cons] at hlen
        omega

namespace Layout

/-- Blocks with the openers, the closing fences and the bodies that they should have are found
exactly if no new line closes a fence. -/
theorem map_blocks_eq_iff {g : Fenced → List Line} {ps : Layout} (hp : Proper ps) {text : Text}
    (hl : lines (ps.map (·.withBody g)) = text.splitLines)
    (hg : ∀ f ∈ fences ps, ∀ l ∈ g f, l.Whole) :
    (text.blocks.map fun b => (b.opener, b.trailing, joinLines (b.body text.splitLines))) =
        ((fences ps).map fun f => (f.opener, f.trailing, joinLines (g f))) ↔
      Proper (ps.map (·.withBody g)) := by
  have hfound : ∀ qs, lines qs = text.splitLines → Proper qs →
      (text.blocks.map fun b => (b.opener, b.trailing, joinLines (b.body text.splitLines))) =
        (fences qs).map fun f => (f.opener, f.trailing, joinLines f.body) := by
    intro qs hq hqp
    have hb : blocksFrom 0 qs = text.blocks := hqp.blocks_eq hq
    have hmap := map_blocksFrom (fun o w body => (o, w, joinLines body)) qs []
    simpa only [List.nil_append, List.length_nil, hq, hb] using hmap
  constructor
  · intro h
    obtain ⟨qs, hq, hqp⟩ := exists_proper text.splitLines
    have hqw := whole_of_mem_fences (hq ▸ lined_splitLines text)
    rw [hfound qs hq hqp] at h
    -- The bodies are determined by their texts, since their lines are whole.
    have hsplit : ∀ {ls : List Line}, (∀ l ∈ ls, l.Whole) → (joinLines ls).splitLines = ls := by
      intro ls hw
      refine splitLines_joinLines ?_
      rw [← List.append_nil ls, lined_append hw]
      trivial
    have hlines := congrArg (List.map fun x => (x.1, x.2.2.splitLines)) h
    rw [List.map_map, List.map_map] at hlines
    refine proper_withBody_of_fences hp hqp (hq.trans hl.symm) ?_
    calc ((fences qs).map fun f => (f.opener, f.body))
        = (fences qs).map fun f => (f.opener, (joinLines f.body).splitLines) :=
          List.map_congr_left fun f hf => by rw [hsplit (hqw f hf)]
      _ = (fences ps).map fun f => (f.opener, (joinLines (g f)).splitLines) := hlines
      _ = (fences ps).map fun f => (f.opener, g f) :=
          List.map_congr_left fun f hf => by rw [hsplit (hg f hf)]
  · intro h
    rw [hfound _ hl h, fences_withBody, List.map_map]
    rfl

/-- The layout of a document after a run. -/
def after (rule : HeaderRule) (answer : Text → Except FormatError Text) (languages : List Text)
    (ps : Layout) : Layout :=
  ps.map (·.withBody fun f => f.opener.bodyAfter rule answer languages f.body)

/-- The faults that a run reports. -/
def faults (rule : HeaderRule) (answer : Text → Except FormatError Text) (languages : List Text)
    (ps : Layout) : List BlockFault :=
  (fences ps).filterMap fun f => f.opener.fault? rule answer languages f.body

/-- A second run keeps a document and its faults exactly if what the first one has written is
harmless everywhere. -/
theorem stable_iff (hs : Steady answer) {ps : Layout} (hp : Proper ps)
    (hw : ∀ f ∈ fences ps, ∀ l ∈ f.body, l.Whole) (languages : List Text) :
    (Proper (after rule answer languages ps) ∧
        lines (after rule answer languages (after rule answer languages ps)) =
          lines (after rule answer languages ps) ∧
        faults rule answer languages (after rule answer languages ps) =
          faults rule answer languages ps) ↔
      ∀ e ∈ scopes ps, languages.elem e.1.opener.language →
        ∀ c, Body.classify rule e.1.opener.kind e.1.opener.indent e.1.body = .ok c →
          (∃ ls, e.1.opener.written rule answer e.1.body = .ok ls) →
            Harmless rule e.1.opener.indent e.2 c.lines := by
  have hagain : ∀ e ∈ scopes ps, _ := fun e he =>
    Opener.bodyAfter_again rule hs e.1.wellFormed (forall_mem_fences_iff.1 hw e he)
      (wellFormed_of_mem_scopesFrom (by simp) e he) (hp.closes?_of_mem_scopes e he) languages
  have hlines : lines (after rule answer languages (after rule answer languages ps)) =
      lines (after rule answer languages ps) ↔
      ∀ e ∈ scopes ps, e.1.opener.bodyAfter rule answer languages
          (e.1.opener.bodyAfter rule answer languages e.1.body) =
        e.1.opener.bodyAfter rule answer languages e.1.body := by
    rw [after, lines_withBody_eq_iff, after, fences_withBody, List.forall_mem_map]
    · exact forall_mem_fences_iff
    · rw [after, fences_withBody, List.forall_mem_map]
      exact forall_mem_fences_iff.2 fun e he => (hagain e he).2.1
  have hfaults : faults rule answer languages (after rule answer languages ps) =
      faults rule answer languages ps ↔
      ∀ e ∈ scopes ps, e.1.opener.fault? rule answer languages
          (e.1.opener.bodyAfter rule answer languages e.1.body) =
        e.1.opener.fault? rule answer languages e.1.body := by
    rw [faults, faults, after, fences_withBody, List.filterMap_map]
    refine (filterMap_eq_iff_of_isSome ?_).trans forall_mem_fences_iff
    exact forall_mem_fences_iff.2 fun e he => (hagain e he).2.2
  rw [hlines, hfaults, after, proper_withBody_iff _ hp, ← forall₂_and, ← forall₂_and]
  exact forall_congr' fun e => forall_congr' fun he => (hagain e he).1

end Layout

/-- A run is final if there is nothing left to do after it. -/
structure Final (rule : HeaderRule) (f : Formatter σ) (options : RunOptions) (text : Text) (s : σ)
    (r : RunResult) (s' : σ) : Prop where
  /-- The next run writes the same text, says so, and meets the same faults in the same order. -/
  repeated : ∃ r₂ s₂, formatWith rule f options r.text s' = (.ok r₂, s₂) ∧ r₂.text = r.text ∧
    r₂.modified = false ∧ r₂.errors.map BlockError.fault = r.errors.map BlockError.fault
  /-- The blocks of the new text are those of the document, each with the fences it had and with
  the body that was written for it. -/
  blocks :
    (r.text.blocks.map fun b => (b.opener, b.trailing, joinLines (b.body r.text.splitLines))) =
      (visits rule f options text.splitLines text.blocks s).map fun v =>
        (v.1.opener, v.1.trailing, v.1.newBody rule f options text.splitLines v.2)

/-- A run is final exactly if it leaves the layout of the document proper, and in it no line and no
fault that a second run would change. -/
theorem exists_final_iff (rule : HeaderRule) {f : Formatter σ} {options : RunOptions} {text : Text}
    (hf : f.Answers options.format answer) (s : σ) (hv : options.format.validate = .ok ())
    {ps : Layout} (hl : ps.lines = text.splitLines) (hp : ps.Proper) :
    ∃ r s', formatWith rule f options text s = (.ok r, s') ∧
      (Final rule f options text s r s' ↔
        Layout.Proper (ps.after rule answer options.languages) ∧
          Layout.lines (Layout.after rule answer options.languages
            (ps.after rule answer options.languages)) =
              Layout.lines (ps.after rule answer options.languages) ∧
          Layout.faults rule answer options.languages (ps.after rule answer options.languages) =
            ps.faults rule answer options.languages) := by
  obtain ⟨r, s', hrun, -, hw⟩ := formatWith_written rule hf text s hv
  obtain ⟨r₂, s₂, hrun₂, hmod, hw₂⟩ := formatWith_written rule hf r.text s' hv
  obtain ⟨ht, he⟩ := hw ps hl hp
  have hwhole := Layout.whole_of_mem_fences (hl ▸ lined_splitLines text)
  have hblocks := Layout.map_blocks_eq_iff hp ht.symm fun g hg =>
    Opener.whole_bodyAfter g.wellFormed rule options.languages (hwhole g hg)
  have hvisits := hp.map_visits rule f options s hl fun o w body =>
    (o, w, joinLines (o.bodyAfter rule answer options.languages body))
  simp only [← fun v : Block × σ => Block.newBody_eq hf rule text.splitLines v.1 v.2] at hvisits
  rw [← hvisits] at hblocks
  refine ⟨r, s', hrun, ?_⟩
  constructor
  · rintro ⟨⟨r₃, s₃, hrun₃, htext, -, herr⟩, hb⟩
    obtain ⟨rfl, rfl⟩ : r₂ = r₃ ∧ s₂ = s₃ := by simpa using hrun₂.symm.trans hrun₃
    have hq := hblocks.1 hb
    obtain ⟨ht₂, he₂⟩ := hw₂ _ ht.symm hq
    refine ⟨hq, ?_, he₂.symm.trans (herr.trans he)⟩
    rw [htext, ht] at ht₂
    exact ht₂.symm
  · rintro ⟨hq, hlines, hfaults⟩
    obtain ⟨ht₂, he₂⟩ := hw₂ _ ht.symm hq
    have htext : r₂.text = r.text := by
      rw [← Text.joinLines_splitLines r₂.text, ← Text.joinLines_splitLines r.text, ht, ht₂]
      exact congrArg joinLines hlines
    refine ⟨⟨r₂, s₂, hrun₂, htext, ?_, he₂.trans (hfaults.trans he.symm)⟩, hblocks.2 hq⟩
    rw [hmod, htext, bne_self_eq_false]

/-- With a formatter that is content with its own answers, a run is final exactly if every body it
writes is harmless in which it lays bare a carriage return. -/
theorem formatWith_final_iff (rule : HeaderRule) (f : Formatter σ) (options : RunOptions)
    (answer : Text → Except FormatError Text) (text : Text) (s : σ)
    (hv : options.format.validate = .ok ()) (hf : f.Answers options.format answer)
    (hs : Steady answer) (hr : AllowsTrimming rule) :
    ∃ r s', formatWith rule f options text s = (.ok r, s') ∧
      (Final rule f options text s r s' ↔
        ∀ b ∈ text.blocks, b.isWrittenIn options.languages →
          ¬ b.Fails rule f options.format text.splitLines s →
            ∀ c, Body.classify rule b.kind b.indent (b.body text.splitLines) = .ok c →
              (∃ l ∈ c.lines, l.uncovers) →
                Harmless rule b.indent (text.openFences b) c.lines) := by
  obtain ⟨ps, hl, hp⟩ := Layout.exists_proper text.splitLines
  have hwhole := Layout.whole_of_mem_fences (hl ▸ lined_splitLines text)
  obtain ⟨r, s', hrun, hfinal⟩ := exists_final_iff rule hf s hv hl hp
  refine ⟨r, s', hrun, ?_⟩
  rw [hfinal, Layout.stable_iff hs hp hwhole]
  have hblocks := hp.forall_blocks_iff hl fun o body os => options.languages.elem o.language →
    (∃ ls, o.written rule answer body = .ok ls) →
      ∀ c, Body.classify rule o.kind o.indent body = .ok c →
        (∃ l ∈ c.lines, l.uncovers) → Harmless rule o.indent os c.lines
  refine Iff.trans ?_ (hblocks.symm.trans ?_)
  · refine forall₃_congr fun e he _ => ⟨fun h hw c hc _ => h c hc hw, fun h c hc hw => ?_⟩
    by_cases hu : ∃ l ∈ c.lines, l.uncovers
    · exact h hw c hc hu
    · refine Opener.harmless_of_covered hr e.1.wellFormed
        (Layout.forall_mem_fences_iff.1 hwhole e he) hc fun l hm => ?_
      exact Bool.eq_false_iff.2 fun h => hu ⟨l, hm, h⟩
  · refine forall₃_congr fun b _ _ => ?_
    rw [Block.not_fails_iff hf]
    rfl

/-- Accepts the headers in which there is a colon. -/
def colonRule : HeaderRule := fun t => if ':' ∈ t then .ok () else .error .notMapping

theorem allowsTrimming_colonRule : AllowsTrimming colonRule := by
  intro lines _ h
  have hm : ':' ∈ Header.text lines := by
    rw [colonRule] at h
    split at h
    · assumption
    · contradiction
  obtain ⟨t, ht, hc⟩ := List.mem_flatMap.1 hm
  have hc : ':' ∈ t := by simpa using hc
  obtain ⟨u, hu, hp⟩ := Text.exists_trimPadding_append t
  have hk : ':' ∈ Text.trimPadding t := by
    rw [hu] at hc
    exact (List.mem_append.1 hc).resolve_right fun hm => absurd (hp _ hm) (by decide)
  rw [colonRule, if_pos]
  rw [Header.text, List.flatMap_map]
  exact List.mem_flatMap.2 ⟨t, ht, List.mem_append_left _ hk⟩

/-- Answers every source with the same assignment. -/
def assignment (_ : Text) : Except FormatError Text := .ok "x = 1\n".toList

theorem steady_assignment : Steady assignment := by
  constructor
  · rintro _ _ ⟨⟩
    constructor <;> decide +kernel
  · rintro _ _ ⟨⟩
    rfl

/-- A document with a carriage return before spaces, at the end of a magic after the code. -/
def magicReturn : Text := "```{code-cell} python\n---\na: 1 \n---\nx=1\n%m\r \n```\n".toList

/-- The carriage return that is laid bare there becomes a part of the ending, and no more. -/
theorem magicReturn_final :
    (({} : RunOptions).format.validate = .ok () ∧
        (Formatter.pure fun t _ => assignment t).Answers ({} : RunOptions).format assignment ∧
        Steady assignment ∧ AllowsTrimming colonRule) ∧
      ∃ r s', formatWith colonRule (.pure fun t _ => assignment t) {} magicReturn () = (.ok r, s') ∧
        Final colonRule (.pure fun t _ => assignment t) {} magicReturn () r s' := by
  have hv : ({} : RunOptions).format.validate = .ok () := rfl
  have hf : (Formatter.pure fun t _ => assignment t).Answers ({} : RunOptions).format assignment :=
    fun _ _ => rfl
  obtain ⟨r, s', hrun, hfinal⟩ := formatWith_final_iff colonRule (.pure fun t _ => assignment t) {}
    assignment magicReturn () hv hf steady_assignment allowsTrimming_colonRule
  refine ⟨⟨hv, hf, steady_assignment, allowsTrimming_colonRule⟩, r, s', hrun,
    hfinal.2 fun b hm _ _ c hc _ => ?_⟩
  have hd : ∀ b ∈ magicReturn.blocks,
      ∀ c ∈ (Body.classify colonRule b.kind b.indent (b.body magicReturn.splitLines)).toOption,
      Harmless colonRule b.indent (magicReturn.openFences b) c.lines := by
    decide +kernel
  exact hd b hm c (by rw [hc]; rfl)

/-- A document with a carriage return between spaces, at the end of a magic. -/
def spacedReturn : Text := "```python\n%m \r \n```\n".toList

/-- The carriage return that is laid bare there lays bare the space before it: the second run trims
this one too. -/
theorem second_run_trims_spacedReturn :
    ((formatDocument (.pure fun t _ => assignment t) {} spacedReturn ()).1.map
        fun r => (r.text, r.modified)) = .ok ("```python\n%m \r\n```\n".toList, true) ∧
      ((formatDocument (.pure fun t _ => assignment t) {} "```python\n%m \r\n```\n".toList ()).1.map
        fun r => (r.text, r.modified)) = .ok ("```python\n%m\r\n```\n".toList, true) := by
  decide +kernel

end FencedCode
