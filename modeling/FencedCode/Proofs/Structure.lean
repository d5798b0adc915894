import FencedCode.Proofs.Written
import Mathlib.Data.List.Forall2

/-! Runs that find all code well formatted. They still set every line of source to the indentation
of its block, and so may turn it into a line that closes a fence; the blocks of the document are
kept exactly if they do not. -/
namespace FencedCode

variable {σ : Type} {indent : Text} {newline : Ending}

namespace Text

/-- A line of a source, without the carriage return that it may end in. -/
def respelled (t : Text) : Text := (Line.ofText (t ++ ['\n'])).content

theorem isAllBlank_respelled (t : Text) : t.respelled.isAllBlank = t.isAllBlank := by
  rw [respelled, Line.ofText_append_lf]
  split
  · next h =>
    have ht : t = t.dropLast ++ ['\r'] := by
      rw [List.dropLast_append_getLast?]
      exact h
    conv_rhs => rw [ht, isAllBlank_append]
    rw [show isAllBlank ['\r'] = true by decide, Bool.and_true]
  · rfl

end Text

/-- A line as it is found after a run that finds all code well formatted. -/
def BodyLine.respelled (indent : Text) (newline : Ending) (l : BodyLine) : Line :=
  if l.kind.isArtifact then l.settled
  else Line.ofText (indent ++ l.text.respelled ++ newline.text)

/-- The line is what a run makes of the given one, except perhaps for white space that is all there
is on both. -/
def Respells (indent : Text) (newline : Ending) (m : Line) (l : BodyLine) : Prop :=
  m = l.respelled indent newline ∨
    (m.content.isAllBlank ∧ (l.respelled indent newline).content.isAllBlank)

theorem isAllBlank_text (e : Ending) : e.text.isAllBlank := by
  cases e <;> decide

theorem Line.isAllBlank_content_ofText {t : Text} (h : t.isAllBlank) :
    (ofText t).content.isAllBlank := by
  rw [← text_ofText t, text, Text.isAllBlank_append, Bool.and_eq_true] at h
  exact h.1

section Blank

variable (hi : ∀ c ∈ indent, isPadding c) {l : BodyLine} (hl : l.kind.isArtifact = false)

include hi hl

theorem respells_of_isBlank (hb : l.isBlank) {m : Line} (hm : m.content.isAllBlank) :
    Respells indent newline m l := by
  refine .inr ⟨hm, ?_⟩
  have hp : indent.isAllBlank := Text.isAllBlank_iff.2 fun c hc => isBlank_of_isPadding (hi c hc)
  rw [BodyLine.respelled, if_neg (by simp [hl])]
  apply Line.isAllBlank_content_ofText
  rw [Text.isAllBlank_append, Text.isAllBlank_append, hp, Text.isAllBlank_respelled,
    isAllBlank_text, Bool.true_and, Bool.and_true]
  exact hb

theorem respells_line (ht : l.text = Text.stripIndent indent l.raw) (hb : l.isBlank) :
    Respells indent newline l.line l := by
  refine respells_of_isBlank hi hl hb ?_
  rw [BodyLine.isBlank, ht, Text.isAllBlank_stripIndent hi] at hb
  exact hb

theorem respells_answerLine :
    Respells indent newline (answerLine indent newline l.text.respelled) l := by
  by_cases hb : l.isBlank
  · refine respells_of_isBlank hi hl hb ?_
    rw [BodyLine.isBlank] at hb
    rw [answerLine, Text.isAllBlank_respelled, if_pos hb]
    exact Line.isAllBlank_content_ofText (isAllBlank_text newline)
  · refine .inl ?_
    rw [BodyLine.isBlank] at hb
    rw [answerLine, Text.isAllBlank_respelled, if_neg hb, BodyLine.respelled, if_neg (by simp [hl])]

end Blank

/-- The lines of the code that a formatter is given. -/
theorem Run.lines_source {r : Run} (h : ∀ l ∈ r.code, '\n' ∉ l.text) :
    r.source.lines = r.code.map fun l => l.text.respelled := by
  rw [Text.lines, source_eq, Text.splitLines_flatMap_lf (List.forall_mem_map.2 h), List.map_map,
    List.map_map]
  rfl

/-- A run that finds all code well formatted writes every segment, line for line. -/
theorem Segment.exists_written_ok (hi : ∀ c ∈ indent, isPadding c) {seg : Segment}
    (hc : WellCut [seg]) (ht : ∀ l ∈ seg.lines, l.text = Text.stripIndent indent l.raw)
    (hn : ∀ l ∈ seg.lines, '\n' ∉ l.text) :
    ∃ ls, seg.written .ok indent newline = .ok ls ∧
      List.Forall₂ (Respells indent newline) ls seg.lines := by
  cases seg with
  | artifact l =>
    refine ⟨[l.settled], rfl, .cons (.inl ?_) .nil⟩
    rw [BodyLine.respelled, if_pos hc.1]
  | source first run =>
    have hs : ∀ l ∈ run, l.kind.isArtifact = false := hc.2.1
    have hline : ∀ ls ⊆ run, (∀ l ∈ ls, l.isBlank) →
        List.Forall₂ (Respells indent newline) (ls.map BodyLine.line) ls := by
      intro ls hr hb
      rw [List.forall₂_map_left_iff, List.forall₂_same]
      intro l hl
      exact respells_line hi (hs l (hr hl)) (ht l (hr hl)) (hb l hl)
    rw [written]
    by_cases he : (Run.ofLines run).code = []
    · refine ⟨_, if_pos (by simp [he]), hline run (List.Subset.refl run) ?_⟩
      exact Run.code_eq_nil_iff.1 he
    · refine ⟨_, if_neg (by simp [he]), ?_⟩
      have ha := Run.ofLines_append run
      have hsub : (Run.ofLines run).leading ⊆ run ∧ (Run.ofLines run).code ⊆ run ∧
          (Run.ofLines run).trailing ⊆ run := by
        rw [← List.append_subset, ← List.append_subset, ha]
        exact List.Subset.refl run
      have hcode : ∀ l ∈ (Run.ofLines run).code, '\n' ∉ l.text := fun l hl => hn l (hsub.2.1 hl)
      rw [Run.written, Run.lines_source hcode, List.map_map, List.append_assoc]
      change List.Forall₂ _ _ run
      conv => arg 3; rw [← ha]
      refine List.rel_append (hline _ hsub.1 Run.isBlank_leading)
        (List.rel_append ?_ (hline _ hsub.2.2 Run.isBlank_trailing))
      rw [List.forall₂_map_left_iff, List.forall₂_same]
      intro l hl
      exact respells_answerLine hi (hs l (hsub.2.1 hl))

theorem exists_writtenLines_ok (newline : Ending) (hi : ∀ c ∈ indent, isPadding c)
    {segs : List Segment} (hc : WellCut segs)
    (ht : ∀ l ∈ segs.flatMap Segment.lines, l.text = Text.stripIndent indent l.raw)
    (hn : ∀ l ∈ segs.flatMap Segment.lines, '\n' ∉ l.text) :
    ∃ ls, writtenLines .ok indent newline segs = .ok ls ∧
      List.Forall₂ (Respells indent newline) ls (segs.flatMap Segment.lines) := by
  induction segs with
  | nil => exact ⟨[], rfl, .nil⟩
  | cons seg segs ih =>
    rw [List.flatMap_cons, List.forall_mem_append] at ht hn
    obtain ⟨hseg, hsegs⟩ := hc.cons
    obtain ⟨ls, hl, hf⟩ := Segment.exists_written_ok hi hseg ht.1 hn.1
    obtain ⟨ms, hm, hg⟩ := ih hsegs ht.2 hn.2
    refine ⟨ls ++ ms, ?_, List.rel_append hf hg⟩
    rw [writtenLines, hl, hm]
    rfl

/-- A blank line closes no fence, and so it does not matter which one stands in its place. -/
theorem Respells.closes?_eq_none_iff {m : Line} {l : BodyLine} (h : Respells indent newline m l)
    {o : Opener} (ho : o.WellFormed) :
    o.closes? m.content = none ↔ o.closes? (l.respelled indent newline).content = none := by
  rcases h with rfl | ⟨hm, hl⟩
  · rfl
  · rw [ho.closes?_of_isAllBlank hm, ho.closes?_of_isAllBlank hl]

theorem forall_closes?_iff {ms : List Line} {ls : List BodyLine}
    (h : List.Forall₂ (Respells indent newline) ms ls) {os : List Opener}
    (ho : ∀ o ∈ os, o.WellFormed) :
    (∀ m ∈ ms, ∀ o ∈ os, o.closes? m.content = none) ↔
      ∀ l ∈ ls, ∀ o ∈ os, o.closes? (l.respelled indent newline).content = none := by
  induction h with
  | nil => simp
  | cons hr _ ih =>
    rw [List.forall_mem_cons, List.forall_mem_cons, ih]
    refine and_congr_left fun _ => forall_congr' fun o => forall_congr' fun hm => ?_
    exact hr.closes?_eq_none_iff (ho o hm)

namespace Opener

variable {o : Opener} {rule : HeaderRule} {body : List Line}

theorem exists_written_ok (ho : o.WellFormed) (hb : ∀ l ∈ body, l.Whole) {c : Body}
    (hc : Body.classify rule o.kind o.indent body = .ok c) :
    ∃ ls, o.written rule .ok body = .ok ls ∧
      List.Forall₂ (Respells o.indent (newlineOf c.lines)) ls c.lines := by
  obtain ⟨-, last, hr, -⟩ := Body.classify_eq_ok hc
  have hl := flatMap_lines_segmentsFrom 0 c.lines
  have hn : ∀ l ∈ c.lines, '\n' ∉ l.text := fun l hl =>
    BodyLine.unbroken_text ho.indent (hb _ (Body.line_mem_of_classify hc hl)) (hr.text_of_mem l hl)
  obtain ⟨ls, hw, hf⟩ := exists_writtenLines_ok (newlineOf c.lines) ho.indent
    (wellCut_segmentsFrom 0 c.lines) (by rw [hl]; exact hr.text_of_mem) (by rw [hl]; exact hn)
  rw [hl] at hf
  exact ⟨ls, by rw [written, hc]; exact hw, hf⟩

/-- What a run that finds all code well formatted makes of a body. -/
theorem bodyAfter_ok (rule : HeaderRule) (ho : o.WellFormed) (hb : ∀ l ∈ body, l.Whole)
    (languages : List Text) {os : List Opener} (hos : ∀ p ∈ os, p.WellFormed)
    (hclosed : ∀ m ∈ body, ∀ p ∈ os, p.closes? m.content = none) :
    (o.bodyAfter rule .ok languages body).length = body.length ∧
      ((∀ m ∈ o.bodyAfter rule .ok languages body, ∀ p ∈ os, p.closes? m.content = none) ↔
        (languages.elem o.language → ∀ c, Body.classify rule o.kind o.indent body = .ok c →
          ∀ l ∈ c.lines, ∀ p ∈ os,
            p.closes? (l.respelled o.indent (newlineOf c.lines)).content = none)) := by
  rw [bodyAfter]
  by_cases hl : languages.elem o.language
  · rw [if_pos hl]
    cases hc : Body.classify rule o.kind o.indent body with
    | error e =>
      have hw : o.written rule .ok body = .error e := by rw [written, hc]; rfl
      rw [hw]
      exact ⟨rfl, iff_of_true hclosed (by simp)⟩
    | ok c =>
      obtain ⟨ls, hw, hf⟩ := exists_written_ok ho hb hc
      rw [hw]
      refine ⟨?_, (forall_closes?_iff hf hos).trans ⟨?_, fun h => h hl c rfl⟩⟩
      · rw [← (Body.classify_eq_ok hc).1, List.length_map]
        exact hf.length_eq
      · rintro h - _ ⟨⟩
        exact h
  · rw [if_neg hl]
    exact ⟨rfl, iff_of_true hclosed fun h => absurd h hl⟩

end Opener

theorem Layout.blocksFrom_withBody {g : Fenced → List Line} {ps : Layout}
    (h : ∀ f ∈ ps.fences, (g f).length = f.body.length) (i : Nat) :
    Layout.blocksFrom i (ps.map (·.withBody g)) = ps.blocksFrom i := by
  induction ps generalizing i with
  | nil => rfl
  | cons p ps ih =>
    cases p with
    | line l => exact ih h (i + 1)
    | fenced f =>
      obtain ⟨hf, h⟩ := List.forall_mem_cons.1 h
      rw [List.map_cons, Piece.withBody, Layout.blocksFrom, Layout.blocksFrom, hf, ih h]

/-- A run that finds all code well formatted keeps the blocks of a document, field for field,
exactly if no line that it writes closes a fence which is open where the line stands. -/
theorem blocks_formatWith_eq_iff (rule : HeaderRule) (f : Formatter σ) (options : RunOptions)
    (text : Text) (s : σ) (hv : options.format.validate = .ok ())
    (hf : f.Answers options.format .ok) :
    ∃ r s', formatWith rule f options text s = (.ok r, s') ∧
      (r.text.blocks = text.blocks ↔
        ∀ b ∈ text.blocks, b.isWrittenIn options.languages →
          ∀ c, Body.classify rule b.kind b.indent (b.body text.splitLines) = .ok c →
            ∀ l ∈ c.lines, ∀ o ∈ text.openFences b,
              o.closes? (l.respelled b.indent (newlineOf c.lines)).content = none) := by
  obtain ⟨r, s', hr, -, hw⟩ := formatWith_written rule hf text s hv
  refine ⟨r, s', hr, ?_⟩
  obtain ⟨ps, hl, hp⟩ := Layout.exists_proper text.splitLines
  obtain ⟨ht, -⟩ := hw ps hl hp
  have hwhole :=
    Layout.forall_mem_fences_iff.1 (Layout.whole_of_mem_fences (hl ▸ lined_splitLines text))
  have hscope : ∀ e ∈ ps.scopes, _ := fun e he =>
    Opener.bodyAfter_ok rule e.1.wellFormed (hwhole e he) options.languages
      (Layout.wellFormed_of_mem_scopesFrom (by simp) e he) (hp.closes?_of_mem_scopes e he)
  have hlen : ∀ f ∈ ps.fences,
      (f.opener.bodyAfter rule .ok options.languages f.body).length = f.body.length :=
    Layout.forall_mem_fences_iff.2 fun e he => (hscope e he).1
  have hkept : r.text.blocks = text.blocks ↔ Layout.Proper (ps.map (·.withBody fun f =>
      f.opener.bodyAfter rule .ok options.languages f.body)) := by
    rw [← Layout.scanBlocks_lines_iff, ← ht, Layout.blocks, Layout.blocksFrom_withBody hlen]
    rw [← hp.blocks_eq hl]
    rfl
  rw [hkept, Layout.proper_withBody_iff _ hp]
  refine Iff.trans ?_ (hp.forall_blocks_iff hl fun o body os =>
    options.languages.elem o.language → ∀ c, Body.classify rule o.kind o.indent body = .ok c →
      ∀ l ∈ c.lines, ∀ p ∈ os,
        p.closes? (l.respelled o.indent (newlineOf c.lines)).content = none).symm
  exact forall_congr' fun e => forall_congr' fun he => (hscope e he).2

/-- A document with a fence in a body that stands deeper than the block's own. -/
def deeperFence : Text := "  ```python\n    ```\n x = 1 \n !ls \n  ```\n".toList

/-- The deeper fence is no danger to the block. -/
theorem identity_keeps_deeper_fence :
    (({} : RunOptions).format.validate = .ok () ∧
        Formatter.identity.Answers ({} : RunOptions).format .ok) ∧
      ∃ r s', formatWith Header.rule Formatter.identity {} deeperFence () = (.ok r, s') ∧
        r.text.blocks = deeperFence.blocks := by
  have hv : ({} : RunOptions).format.validate = .ok () := rfl
  have hf : Formatter.identity.Answers ({} : RunOptions).format .ok := fun _ _ => rfl
  obtain ⟨r, s', hr, hb⟩ :=
    blocks_formatWith_eq_iff Header.rule Formatter.identity {} deeperFence () hv hf
  refine ⟨⟨hv, hf⟩, r, s', hr, hb.2 fun b hm _ c hc => ?_⟩
  have hd : ∀ b ∈ deeperFence.blocks,
      ∀ c ∈ (Body.classify Header.rule b.kind b.indent (b.body deeperFence.splitLines)).toOption,
      ∀ l ∈ c.lines, ∀ o ∈ deeperFence.openFences b,
        o.closes? (l.respelled b.indent (newlineOf c.lines)).content = none := by
    decide +kernel
  exact hd b hm c (by rw [hc]; rfl)

/-- A document with a fence in a body that lacks the block's indentation. -/
def shallowFence : Text :=
  "    ```python\n```\n      ```python\n    x\n      ```\n    ```\n".toList

/-- The shallow fence gets the block's indentation from the run and closes the block, and the one
block becomes two. -/
theorem identity_closes_block_early :
    (shallowFence.blocks.map fun b => (b.fenceLine, b.endLine)) = [(0, 5)] ∧
      (formatDocument Formatter.identity {} shallowFence ()).1.map
          (fun r => r.text.blocks.map fun b => (b.fenceLine, b.endLine)) =
        .ok [(0, 1), (2, 4)] := by
  decide +kernel

end FencedCode
