import FencedCode.Proofs.Sources
import FencedCode.Proofs.Structure

/-! Blocks that stay as they are. If the formatter finds all code well formatted, formatting a block
only sets its code to the block's indentation and line ending and trims its artifacts. Whether this
changes anything can be told from the lines of the block, one by one. -/
namespace FencedCode

variable {σ : Type} {indent : Text} {newline : Ending}

/-- No space is taken off the artifact: it keeps all of its end, or has no space there. -/
def BodyLine.IsTrim (l : BodyLine) : Prop :=
  l.kind ≠ .cellMagic → l.kind ≠ .frozen → ∀ c ∈ l.raw.getLast?, c ≠ ' ' ∧ c ≠ '\t'

/-- The line of code already is as the lines of an answer are written: with the given ending, and
either empty or with the indentation before it and no carriage return at its end. -/
structure BodyLine.IsAligned (indent : Text) (newline : Ending) (l : BodyLine) : Prop where
  ending : l.ending = newline
  content : (l.isBlank ∧ l.raw = []) ∨
    (l.isBlank = false ∧ indent <+: l.raw ∧ l.raw.getLast? ≠ some '\r')

/-- Formatting leaves the segment as it is, as far as its code is well formatted. -/
def Segment.IsStill (indent : Text) (newline : Ending) : Segment → Prop
  | .artifact l => l.IsTrim
  | .source _ run => ∀ l ∈ (Run.ofLines run).code, l.IsAligned indent newline

theorem Line.ofText_injective : Function.Injective Line.ofText := fun t u h => by
  rw [← Line.text_ofText t, h, Line.text_ofText]

/-- Whole lines are read off the text that they make up. -/
theorem joinLines_inj {ls ms : List Line} (hl : ∀ l ∈ ls, l.Whole) (hm : ∀ l ∈ ms, l.Whole) :
    joinLines ls = joinLines ms ↔ ls = ms := by
  have hw : ∀ {ls : List Line}, (∀ l ∈ ls, l.Whole) → (joinLines ls).splitLines = ls := by
    intro ls h
    have hs : Lined (ls ++ []) := (lined_append h).2 trivial
    rw [List.append_nil] at hs
    exact splitLines_joinLines hs
  constructor
  · intro h
    rw [← hw hl, h, hw hm]
  · exact congrArg joinLines

theorem Text.trimPadding_eq_self_iff {t : Text} :
    t.trimPadding = t ↔ ∀ c ∈ t.getLast?, c ≠ ' ' ∧ c ≠ '\t' := by
  rcases List.eq_nil_or_concat t with rfl | ⟨d, c, rfl⟩
  · simp [trimPadding]
  · rw [List.concat_eq_append]
    constructor
    · intro h x hx
      obtain rfl : c = x := by simpa using hx
      simpa [isPadding] using not_isPadding_of_trimPadding h
    · intro h
      apply trimPadding_append_singleton
      simpa [isPadding] using h c (by simp)

theorem Text.respelled_append_return (t : Text) : respelled (t ++ ['\r']) = t := by
  rw [respelled, Line.ofText_append_lf, if_pos (by simp), List.dropLast_concat]

theorem Text.respelled_of_getLast? {t : Text} (h : t.getLast? ≠ some '\r') : t.respelled = t := by
  rw [respelled, Line.ofText_append_lf, if_neg h]

section Line

variable {l : BodyLine} (h : l.line.Whole)

include h

theorem BodyLine.settled_eq_line_iff : l.settled = l.line ↔ l.IsTrim := by
  have hp : l.preserved = l.raw ↔ l.IsTrim := by
    rw [preserved, IsTrim]
    by_cases hv : l.kind.isVerbatim
    · rw [if_pos hv]
      rcases LineKind.isVerbatim_iff.1 hv with hk | hk <;> simp [hk]
    · rw [if_neg hv, Text.trimPadding_eq_self_iff]
      rw [LineKind.isVerbatim_iff, not_or] at hv
      simp only [ne_eq, hv, not_false_eq_true, true_implies]
  rw [← hp, ← h.ofText_text, settled, Line.ofText_injective.eq_iff]
  exact List.append_left_inj l.ending.text

omit h in
/-- Carriage returns tell the two texts apart: there are none in space, and a line of code that ends
in one loses it. -/
theorem append_respelled_eq_iff (hi : ∀ c ∈ indent, isPadding c) (hn : newline ≠ .missing)
    {pad t : Text} (hp : ∀ c ∈ pad, isPadding c) {e : Ending} (hm : e ≠ .missing)
    (he : e = .lf → t.getLast? ≠ some '\r') :
    indent ++ t.respelled ++ newline.text = pad ++ t ++ e.text ↔
      e = newline ∧ indent = pad ∧ t.getLast? ≠ some '\r' := by
  have hspace : ∀ {u : Text}, (∀ c ∈ u, isPadding c) → u.count '\r' = 0 := fun hu =>
    List.count_eq_zero.2 fun hr => absurd (hu _ hr) (by decide)
  constructor
  · intro h
    have hc := congrArg (List.count '\r') h
    simp only [List.count_append, hspace hi, hspace hp, Nat.zero_add] at hc
    by_cases hr : t.getLast? = some '\r'
    · obtain ⟨d, rfl⟩ := List.getLast?_eq_some_iff.1 hr
      rw [Text.respelled_append_return, List.count_append] at hc
      cases e with
      | missing => exact absurd rfl hm
      | lf => exact absurd hr (he rfl)
      | crlf =>
        -- two returns stand at the end of the line, and at most one at the end of the new one
        cases newline <;> simp [Ending.text] at hc <;> omega
    · rw [Text.respelled_of_getLast? hr] at h hc
      have hen : e = newline := by
        cases e <;> cases newline <;> simp_all [Ending.text]
      rw [hen, List.append_left_inj, List.append_left_inj] at h
      exact ⟨hen, h, hr⟩
  · rintro ⟨rfl, rfl, hr⟩
    rw [Text.respelled_of_getLast? hr]

theorem answerLine_respelled_eq_iff (hi : ∀ c ∈ indent, isPadding c) (hn : newline ≠ .missing)
    (ht : l.text = Text.stripIndent indent l.raw) :
    answerLine indent newline l.text.respelled = l.line ↔ l.IsAligned indent newline := by
  by_cases hb : l.text.isAllBlank
  · have hw : (⟨[], newline⟩ : Line).Whole := ⟨hn, by simp, by simp⟩
    have ha : answerLine indent newline l.text.respelled = ⟨[], newline⟩ := by
      rw [answerLine, Text.isAllBlank_respelled, if_pos hb]
      exact hw.ofText_text
    rw [ha, BodyLine.line, Line.mk.injEq]
    constructor
    · rintro ⟨hr, he⟩
      exact ⟨he.symm, .inl ⟨hb, hr.symm⟩⟩
    · rintro ⟨he, ⟨-, hr⟩ | ⟨hf, -⟩⟩
      · exact ⟨hr.symm, he.symm⟩
      · rw [BodyLine.isBlank, hb] at hf
        contradiction
  · obtain ⟨pad, hp, hpad⟩ := Text.exists_stripIndent hi l.raw
    rw [← ht] at hp
    obtain ⟨x, xs, hx⟩ := Text.exists_cons_of_not_isAllBlank (by simpa using hb)
    have hlast : l.raw.getLast? = l.text.getLast? := by
      rw [hp, List.getLast?_append_of_ne_nil _ (by simp [hx])]
    have hbare : l.ending = .lf → l.text.getLast? ≠ some '\r' := fun he => hlast ▸ h.bare he
    have hended : l.ending ≠ .missing := h.ended
    have hline : l.line.text = pad ++ l.text ++ l.ending.text := by rw [← hp]; rfl
    rw [answerLine, Text.isAllBlank_respelled, if_neg hb, ← h.ofText_text,
      Line.ofText_injective.eq_iff, hline, append_respelled_eq_iff hi hn hpad hended hbare]
    constructor
    · rintro ⟨he, rfl, hr⟩
      exact ⟨he, .inr ⟨by simpa [BodyLine.isBlank] using hb, ⟨l.text, hp.symm⟩, hlast ▸ hr⟩⟩
    · rintro ⟨he, ⟨hbl, -⟩ | ⟨-, ⟨r, hr⟩, hret⟩⟩
      · exact absurd hbl hb
      · refine ⟨he, ?_, hlast ▸ hret⟩
        rw [← hr, Text.stripIndent_append] at ht
        rw [← ht, hp] at hr
        exact List.append_cancel_right hr

end Line

section Segments

variable (hi : ∀ c ∈ indent, isPadding c) (hn : newline ≠ .missing)

include hi hn

theorem Segment.written_ok_eq_iff {seg : Segment} (hw : ∀ l ∈ seg.lines, l.line.Whole)
    (ht : ∀ l ∈ seg.lines, l.text = Text.stripIndent indent l.raw) :
    seg.written .ok indent newline = .ok (seg.lines.map BodyLine.line) ↔
      seg.IsStill indent newline := by
  cases seg with
  | artifact l =>
    rw [written, lines, IsStill, List.map_singleton, Except.ok.injEq, List.singleton_inj]
    exact BodyLine.settled_eq_line_iff (hw l List.mem_cons_self)
  | source first run =>
    have ha := Run.ofLines_append run
    rw [written, IsStill]
    by_cases hc : (Run.ofLines run).code = []
    · simp [hc, lines]
    · have hsub : ∀ l ∈ (Run.ofLines run).code, l ∈ run := by
        intro l hl
        rw [← ha]
        simp [hl]
      have hu : ∀ l ∈ (Run.ofLines run).code, '\n' ∉ l.text := fun l hl =>
        BodyLine.unbroken_text hi (hw l (hsub l hl)) (ht l (hsub l hl))
      have hr : run.map BodyLine.line = (Run.ofLines run).leading.map BodyLine.line ++
          (Run.ofLines run).code.map BodyLine.line ++
          (Run.ofLines run).trailing.map BodyLine.line := by
        conv_lhs => rw [← ha, List.map_append, List.map_append, ← List.append_assoc]
      rw [if_neg (by simpa using hc)]
      simp only [lines, Except.ok.injEq]
      rw [Run.written, Run.lines_source hu, hr, List.append_left_inj, List.append_right_inj,
        List.map_map, List.map_inj_left]
      refine forall_congr' fun l => forall_congr' fun hl => ?_
      exact answerLine_respelled_eq_iff (hw l (hsub l hl)) hi hn (ht l (hsub l hl))

/-- Every segment is written as many lines as it has, so that none can make up for another. -/
theorem writtenLines_ok_eq_iff {segs : List Segment} (hc : WellCut segs)
    (hw : ∀ l ∈ segs.flatMap Segment.lines, l.line.Whole)
    (ht : ∀ l ∈ segs.flatMap Segment.lines, l.text = Text.stripIndent indent l.raw) :
    writtenLines .ok indent newline segs = .ok ((segs.flatMap Segment.lines).map BodyLine.line) ↔
      ∀ seg ∈ segs, seg.IsStill indent newline := by
  have hu : ∀ l ∈ segs.flatMap Segment.lines, '\n' ∉ l.text := fun l hl =>
    BodyLine.unbroken_text hi (hw l hl) (ht l hl)
  induction segs with
  | nil => simp [writtenLines]
  | cons seg segs ih =>
    rw [List.flatMap_cons, List.forall_mem_append] at hw ht hu
    obtain ⟨hseg, hsegs⟩ := hc.cons
    obtain ⟨ls, hl, hf⟩ := Segment.exists_written_ok hi hseg ht.1 hu.1
    obtain ⟨ms, hm, -⟩ := exists_writtenLines_ok newline hi hsegs ht.2 hu.2
    have hlen : ls.length = (seg.lines.map BodyLine.line).length := by
      rw [List.length_map]
      exact hf.length_eq
    rw [List.forall_mem_cons]
    refine Iff.trans ?_
      (and_congr (Segment.written_ok_eq_iff hi hn hw.1 ht.1) (ih hsegs hw.2 ht.2 hu.2))
    rw [writtenLines, hl, hm, List.flatMap_cons, List.map_append, Except.ok.injEq, Except.ok.injEq]
    constructor
    · intro h
      exact List.append_inj (Except.ok.inj h) hlen
    · rintro ⟨rfl, rfl⟩
      rfl

end Segments

/-- What holds of the code in all stretches of a body holds of the code in its segments. -/
theorem forall_stretch_iff {P : BodyLine → Prop} (i : Nat) (ls : List BodyLine) :
    (∀ w : Stretch, w.IsOf ls → ∀ l ∈ w.code, P l) ↔
      ∀ first run, .source first run ∈ segmentsFrom i ls →
        ∀ l ∈ (Run.ofLines run).code, P l := by
  induction ls using bodyInduction generalizing i with
  | nil =>
    exact iff_of_true (fun w hw => absurd hw w.not_isOf_nil) (by simp [segmentsFrom])
  | artifact l ls hl ih =>
    have hk : l.kind ≠ .source := by simpa [LineKind.isArtifact] using hl
    simp only [Stretch.isOf_cons_iff hk, segmentsFrom_artifact hl, List.mem_cons, reduceCtorEq,
      false_or, ← ih (i + 1)]
    constructor
    · intro h w hw
      exact h (w.shift [l]) ⟨w, hw, rfl⟩
    · rintro h _ ⟨v, hv, rfl⟩
      exact h v hv
  | run run tail hr hs ht ih =>
    have hs' : ∀ l ∈ run, l.kind = .source := by simpa [LineKind.isArtifact] using hs
    have ht' : ∀ l ∈ tail.head?, l.kind ≠ .source := by simpa [LineKind.isArtifact] using ht
    simp only [Stretch.isOf_append_iff hr hs' ht', segmentsFrom_run hr hs ht, List.mem_cons,
      Segment.source.injEq]
    constructor
    · rintro h first run' (⟨-, rfl⟩ | hm) l hl
      · exact h _ (.inl ⟨List.ne_nil_of_mem hl, rfl⟩) l hl
      · refine (ih (i + run.length)).1 (fun w hw => ?_) first run' hm l hl
        exact h (w.shift run) (.inr ⟨w, hw, rfl⟩)
    · rintro h w (⟨hc, rfl⟩ | ⟨v, hv, rfl⟩)
      · exact h i run (.inl ⟨rfl, rfl⟩)
      · exact (ih (i + run.length)).2 (fun first run' hm => h first run' (.inr hm)) v hv

theorem forall_isStill_iff (ls : List BodyLine) :
    (∀ seg ∈ segments ls, seg.IsStill indent newline) ↔
      (∀ l ∈ ls, l.kind ≠ .source → l.IsTrim) ∧
        ∀ w : Stretch, w.IsOf ls → ∀ l ∈ w.code, l.IsAligned indent newline := by
  rw [forall_stretch_iff 0 ls]
  have ha : ∀ l, .artifact l ∈ segments ls ↔ l ∈ ls ∧ l.kind ≠ .source := fun l => by
    rw [segments, artifact_mem_segmentsFrom_iff]
    simp [LineKind.isArtifact]
  constructor
  · intro h
    exact ⟨fun l hl hk => h _ ((ha l).2 ⟨hl, hk⟩), fun first run hm => h _ hm⟩
  · rintro ⟨htrim, hcode⟩ seg hm
    cases seg with
    | artifact l => exact htrim l ((ha l).1 hm).1 ((ha l).1 hm).2
    | source first run => exact hcode first run hm

theorem Block.changed_eq {rule : HeaderRule} {f : Formatter σ} {options : FormatOptions}
    {lines : List Line} {b : Block} {s : σ} {new : FormattedBlock}
    (h : (b.format rule f options lines s).result = .ok new) :
    new.changed = (new.body != joinLines (b.body lines)) := by
  rw [format] at h
  split at h
  · contradiction
  · simp only at h
    split at h
    · contradiction
    · obtain rfl := Except.ok.inj h
      rfl

/-- A formatter that finds all code well formatted leaves a block of a document as it is exactly if
every line does its part: no artifact has space to be trimmed, and from the first to the last line
of code in each stretch of source all lines have the ending of the body's first line, and are empty
or start with the block's indentation and do not end in a carriage return. -/
theorem Block.format_unchanged_iff (rule : HeaderRule) (f : Formatter σ) (options : FormatOptions)
    (text : Text) (b : Block) (c : Body) (s : σ) (hb : b ∈ text.blocks)
    (hc : Body.classify rule b.kind b.indent (b.body text.splitLines) = .ok c)
    (hf : f.Answers options .ok) :
    ∃ new, (b.format rule f options text.splitLines s).result = .ok new ∧
      (new.changed = false ↔
        (∀ l ∈ c.lines, l.kind ≠ .source → l.IsTrim) ∧
          ∀ first ∈ c.lines.head?, ∀ w : Stretch, w.IsOf c.lines → ∀ l ∈ w.code,
            l.IsAligned b.indent first.ending) := by
  obtain ⟨ho, hw⟩ := Text.wellFormed_of_mem_blocks b hb
  obtain ⟨hl, last, hr, -⟩ := Body.classify_eq_ok hc
  have hwl : ∀ l ∈ c.lines, l.line.Whole := fun l hm => hw _ (Body.line_mem_of_classify hc hm)
  obtain ⟨ls, hls, -⟩ := Opener.exists_written_ok ho hw hc
  have hwritten : writtenLines .ok b.indent (newlineOf c.lines) (segments c.lines) = .ok ls := by
    obtain ⟨c', hc', h⟩ := Except.bind_eq_ok_iff.1 hls
    obtain rfl := Except.ok.inj (hc.symm.trans hc')
    exact h
  obtain ⟨e, -, hfault⟩ | ⟨new, ls', hnew, hls', hbody⟩ :=
    format_written hf rule text.splitLines b s
  · rw [hls] at hfault
    contradiction
  obtain rfl := Except.ok.inj (hls.symm.trans hls')
  have hlines := flatMap_lines_segmentsFrom 0 c.lines
  refine ⟨new, hnew, ?_⟩
  have hsame : new.changed = false ↔ ls = b.body text.splitLines := by
    rw [changed_eq hnew, bne_eq_false_iff_eq, hbody, joinLines_inj _ hw]
    refine whole_writtenLines ho.indent (newlineOf_ne_missing _) ?_ hwritten
    rwa [segments, hlines]
  have hi : ∀ x ∈ b.indent, isPadding x := ho.indent
  have hstill := writtenLines_ok_eq_iff hi (newlineOf_ne_missing c.lines)
    (wellCut_segmentsFrom 0 c.lines) (by rwa [hlines]) (by rw [hlines]; exact hr.text_of_mem)
  rw [hlines, ← segments, hwritten, Except.ok.injEq, hl] at hstill
  rw [hsame, hstill, forall_isStill_iff]
  refine and_congr_right fun _ => ?_
  cases hcl : c.lines with
  | nil =>
    exact iff_of_true (fun w hw => absurd hw w.not_isOf_nil) (by simp)
  | cons first ls =>
    have he := (hwl first (hcl ▸ List.mem_cons_self)).ended
    rw [newlineOf_cons_of_ended he]
    simp

/-- A document with a block in which everything is in its place: endings of two kinds, blank lines
around the code, space at the end of a line of code and of frozen lines. -/
def stillDocument : Text :=
  "  ```py\n\r\n  x\r\n\r\n    y \r\n \n  !ls\n  %%sh \nz \n  ```\n".toList

def stillBlock : Block := ⟨0, 9, ⟨[' ', ' '], ⟨'\x60', 3⟩, ['p', 'y']⟩, []⟩

theorem format_unchanged_stillBlock :
    stillBlock ∈ stillDocument.blocks ∧ Formatter.identity.Answers {} .ok ∧
      ∃ c, Body.classify Header.rule stillBlock.kind stillBlock.indent
          (stillBlock.body stillDocument.splitLines) = .ok c ∧
        ∃ new, (stillBlock.format Header.rule Formatter.identity {} stillDocument.splitLines
            ()).result = .ok new ∧
          new.changed = false ∧ (∀ l ∈ c.lines, l.kind ≠ .source → l.IsTrim) ∧
          ∀ first ∈ c.lines.head?, ∀ w : Stretch, w.IsOf c.lines → ∀ l ∈ w.code,
            l.IsAligned stillBlock.indent first.ending := by
  have hb : stillBlock ∈ stillDocument.blocks := by decide +kernel
  have hf : Formatter.identity.Answers {} .ok := fun _ _ => rfl
  have hsame : (stillBlock.format Header.rule Formatter.identity {} stillDocument.splitLines
      ()).result.map FormattedBlock.changed = .ok false := by
    decide +kernel
  have hread : (Body.classify Header.rule stillBlock.kind stillBlock.indent
      (stillBlock.body stillDocument.splitLines)).toOption.isSome := by
    decide +kernel
  cases hc : Body.classify Header.rule stillBlock.kind stillBlock.indent
      (stillBlock.body stillDocument.splitLines) with
  | error fault =>
    rw [hc] at hread
    contradiction
  | ok c =>
    obtain ⟨new, hr, hiff⟩ := Block.format_unchanged_iff Header.rule Formatter.identity {}
      stillDocument stillBlock c () hb hc hf
    rw [hr] at hsame
    have hnew := Except.ok.inj hsame
    exact ⟨hb, hf, c, rfl, new, hr, hnew, hiff.1 hnew⟩

end FencedCode
