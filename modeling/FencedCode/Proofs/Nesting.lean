import FencedCode.Proofs.Counting
import FencedCode.Proofs.Dressing

/-! Documents that are nested deeper, as in an item of a list. A run treats them as it treats the
document that is not nested, but for one case: where it leaves a line with nothing but a carriage
return before its line feed, the nested line keeps its indentation, and the other one reads as an
empty line, which nesting leaves alone. In this case, too, it finds both documents modified. -/
namespace FencedCode

variable {σ : Type}

/-- The line with more indentation, unless it is empty. -/
def Line.nest (l : Line) (pad : Text) : Line :=
  { l with content := if l.content = [] then [] else pad ++ l.content }

def Text.nest (t pad : Text) : Text := joinLines (t.splitLines.map (·.nest pad))

/-- An artifact of which a run leaves nothing but a carriage return, before a bare line feed. -/
def BodyLine.fades (l : BodyLine) : Bool :=
  l.kind.isArtifact && l.draft = ⟨['\r'], .lf⟩

/-- A line of white space that ends with a space or a tab, before a bare line feed. -/
def Line.trails (l : Line) : Bool :=
  l.ending = .lf && l.content.isAllBlank && l.content.getLast?.any isPadding

def Dress.nesting (pad : Text) (h : ∀ c ∈ pad, isPadding c) : Dress where
  pad := pad
  ending := id
  padding := h
  ended _ := Iff.rfl
  bare _ := id

theorem ne_return_of_whole {l : Line} (h : l.Whole) : l ≠ ⟨['\r'], .lf⟩ := by
  rintro rfl
  exact h.bare rfl rfl

section Line

variable {pad : Text} (hp : ∀ c ∈ pad, isPadding c)

theorem Dress.nesting_text (t : Text) : (nesting pad hp).text t = t.nest pad := rfl

include hp

/-- Nesting a line before and after it is read back is the same, unless its content is a carriage
return that is read as part of the ending. -/
theorem Line.ofText_nest_iff {l : Line} (hu : '\n' ∉ l.content) :
    ofText (l.nest pad).text = (ofText l.text).nest pad ↔ pad = [] ∨ l ≠ ⟨['\r'], .lf⟩ := by
  have hn : '\n' ∉ (l.nest pad).content := (Dress.nesting pad hp).not_mem_content hu
  by_cases hm : l.ending = .missing
  · obtain ⟨c, e⟩ := l
    obtain rfl : e = .missing := hm
    have ht : ∀ c : Text, (Line.mk c .missing).text = c := fun c => List.append_nil c
    have hl : (Line.mk c .missing).nest pad = ⟨((Line.mk c .missing).nest pad).content, .missing⟩ :=
      rfl
    rw [ht, ofText_of_unbroken hu, hl, ht, ofText_of_unbroken hn]
    simp
  by_cases hb : l.ending = .lf → l.content.getLast? ≠ some '\r'
  · have hw : l.Whole := ⟨hm, hu, hb⟩
    have hw' : (l.nest pad).Whole := (Dress.nesting pad hp).whole_line hw
    rw [hw.ofText_text, hw'.ofText_text]
    exact iff_of_true rfl (.inr (ne_return_of_whole hw))
  · obtain ⟨c, e⟩ := l
    obtain ⟨rfl, hl⟩ : e = .lf ∧ c.getLast? = some '\r' := by simpa using hb
    obtain ⟨u, rfl⟩ := List.getLast?_eq_some_iff.1 hl
    have hc : (Line.mk (u ++ ['\r']) .lf).nest pad = ⟨pad ++ u ++ ['\r'], .lf⟩ := by
      simp [nest]
    have hread : ∀ v : Text, ofText (Line.mk (v ++ ['\r']) .lf).text = ⟨v, .crlf⟩ := by
      intro v
      rw [text, Ending.text, ofText_append_lf, if_pos (by simp), List.dropLast_concat]
    rw [hc, hread, hread]
    by_cases hu : u = []
    · simp [hu, nest]
    · simp [hu, nest]

theorem Line.trails_nest (l : Line) : (l.nest pad).trails = l.trails := by
  have hlast : (l.nest pad).content.getLast? = l.content.getLast? :=
    (Dress.nesting pad hp).getLast?_content l.content
  have hblank : (l.nest pad).content.isAllBlank = l.content.isAllBlank := by
    by_cases hc : l.content = []
    · simp [nest, hc]
    · have hpad := Text.isAllBlank_iff.2 fun c hm => isBlank_of_isPadding (hp c hm)
      rw [nest, if_neg hc, Text.isAllBlank_append, hpad, Bool.true_and]
  rw [trails, hlast, hblank]
  rfl

end Line

/-- A line of an answer is written empty, or with more than white space in it. -/
theorem draftLine_ne_return {indent : Text} (hi : ∀ c ∈ indent, isPadding c) (newline : Ending)
    (t : Text) : draftLine indent newline t ≠ ⟨['\r'], .lf⟩ := by
  intro h
  have hc := congrArg Line.content h
  simp only [draftLine] at hc
  split at hc
  · contradiction
  · next hb =>
    have hb' := Text.isAllBlank_append indent t
    rw [hc, Text.isAllBlank_iff.2 fun c hm => isBlank_of_isPadding (hi c hm)] at hb'
    exact hb hb'.symm

/-- The lines that a run puts together can be nested one by one exactly if no artifact fades. -/
theorem Layout.Proper.forall_ne_return_iff {ps : Layout} (hp : ps.Proper) {rule : HeaderRule}
    {f : Formatter σ} {options : RunOptions} {text : Text} {s : σ}
    (hl : ps.lines = text.splitLines) :
    (∀ l ∈ ps.rewritten rule f options text s, l ≠ ⟨['\r'], .lf⟩) ↔
      ∀ v ∈ visits rule f options text.splitLines text.blocks s,
        v.1.isWrittenIn options.languages →
          ¬ v.1.Fails rule f options.format text.splitLines v.2 →
          ∀ c, Body.classify rule v.1.kind v.1.indent (v.1.body text.splitLines) = .ok c →
            ∀ l ∈ c.lines, l.fades = false := by
  rw [hp.forall_mem_rewritten_iff hl]
  · simp [BodyLine.fades]
  · rintro l hm rfl
    exact ne_return_of_whole ((lined_splitLines text).whole_of_mem hm (by simp)) rfl
  · intro b hb c _ t _
    exact draftLine_ne_return (Text.wellFormed_of_mem_blocks b hb).1.indent _ t

/-- Whether a line ends with space does not change when it is read back. -/
theorem Line.trails_ofText {l : Line} (hu : '\n' ∉ l.content) :
    (ofText l.text).trails = l.trails := by
  by_cases hm : l.ending = .missing
  · obtain ⟨c, e⟩ := l
    obtain rfl : e = .missing := hm
    rw [text, Ending.text, List.append_nil, ofText_of_unbroken hu]
  by_cases hb : l.ending = .lf → l.content.getLast? ≠ some '\r'
  · rw [Whole.ofText_text ⟨hm, hu, hb⟩]
  · obtain ⟨c, e⟩ := l
    obtain ⟨rfl, hl⟩ : e = .lf ∧ c.getLast? = some '\r' := by simpa using hb
    have hr : isPadding '\r' = false := by decide
    rw [text, Ending.text, ofText_append_lf, if_pos hl]
    simp [trails, hl, hr]

theorem Drafted.countP_trails {ls : List Line} (h : Drafted ls) :
    (joinLines ls).splitLines.countP Line.trails = ls.countP Line.trails := by
  rw [h.splitLines_joinLines, List.countP_map]
  refine List.countP_congr fun l hm => ?_
  rw [Function.comp_apply, Line.trails_ofText (h.unbroken l hm)]

theorem trails_draftLine (indent : Text) (newline : Ending) (t : Text) :
    (draftLine indent newline t).trails = false := by
  rw [draftLine]
  split
  · simp [Line.trails]
  · next hb => simp [Line.trails, Text.isAllBlank_append, hb]

theorem Text.not_isPadding_of_getLast?_trimPadding {t : Text} {c : Char}
    (h : t.trimPadding.getLast? = some c) : isPadding c = false := by
  obtain ⟨u, hu⟩ := List.getLast?_eq_some_iff.1 h
  exact not_isPadding_of_trimPadding hu

/-- Trimming leaves no space at the end of an artifact, so that one which ends with space is kept
as it is. -/
theorem BodyLine.trails_of_draft (l : BodyLine) (h : l.draft.trails) : l.line.trails := by
  rw [draft, preserved] at h
  split at h
  · exact h
  · simp only [Line.trails, Bool.and_eq_true, Option.any_eq_true] at h
    obtain ⟨-, c, hc, hp⟩ := h
    rw [Text.not_isPadding_of_getLast?_trimPadding hc] at hp
    contradiction

/-- What fades is a carriage return with spaces or tabs after it. -/
theorem BodyLine.trails_of_fades {l : BodyLine} (hw : l.line.Whole) (h : l.fades) :
    l.kind.isArtifact ∧ l.line.trails ∧ l.draft.trails = false := by
  rw [fades, Bool.and_eq_true, decide_eq_true_eq] at h
  obtain ⟨hk, hd⟩ := h
  refine ⟨hk, ?_, by rw [hd]; decide⟩
  obtain ⟨hc, he⟩ := Line.mk.inj hd
  rw [preserved] at hc
  split at hc
  · -- a line that is kept as it is ends with no carriage return before a bare line feed
    exact absurd (congrArg List.getLast? hc) (hw.bare he)
  · obtain ⟨u, hu, hp⟩ := l.raw.exists_trimPadding_append
    rw [hc] at hu
    have hne : u ≠ [] := by
      rintro rfl
      exact absurd (congrArg List.getLast? hu) (hw.bare he)
    obtain ⟨v, c, rfl⟩ := List.eq_nil_or_concat u |>.resolve_left hne
    rw [List.concat_eq_append] at hu hp
    have hblank : l.raw.isAllBlank := by
      rw [hu, Text.isAllBlank_append, Bool.and_eq_true]
      exact ⟨by decide, Text.isAllBlank_iff.2 fun c hm => isBlank_of_isPadding (hp c hm)⟩
    have hlast : l.raw.getLast? = some c := by
      rw [hu, ← List.append_assoc, List.getLast?_append, List.getLast?_singleton, Option.some_or]
    have hpc := hp c (by simp)
    simp [Line.trails, line, he, hblank, hlast, hpc]

/-- A run that leaves a carriage return alone leaves fewer lines that end with space than there
were. -/
theorem Layout.Proper.countP_trails_rewritten_lt {ps : Layout} (hp : ps.Proper)
    {rule : HeaderRule} {f : Formatter σ} {options : RunOptions} {text : Text} {s : σ}
    (hl : ps.lines = text.splitLines)
    (h : ⟨['\r'], .lf⟩ ∈ ps.rewritten rule f options text s) :
    (ps.rewritten rule f options text s).countP Line.trails <
      text.splitLines.countP Line.trails := by
  have hfades : ¬ ∀ l ∈ ps.rewritten rule f options text s, l ≠ ⟨['\r'], .lf⟩ :=
    fun hn => hn _ h rfl
  rw [hp.forall_ne_return_iff hl] at hfades
  push Not at hfades
  obtain ⟨v, hv, hw, hf, c, hc, l, hm, hfade⟩ := hfades
  have hwhole := (Text.wellFormed_of_mem_blocks v.1 (mem_blocks_of_mem_visits hv)).2 _
    (Body.line_mem_of_classify hc hm)
  obtain ⟨hk, hb, hd⟩ := BodyLine.trails_of_fades hwhole (Bool.eq_true_of_not_eq_false hfade)
  exact hp.countP_rewritten_lt trails_draftLine BodyLine.trails_of_draft hl hv hw hf hc hm hk hb hd

/-- Lines of which fewer end with space than in a document make up neither the document nor, nested,
the nested one. -/
theorem ne_of_countP_trails_lt {pad : Text} (hp : ∀ c ∈ pad, isPadding c) {ls : List Line}
    (hd : Drafted ls) {text : Text}
    (h : ls.countP Line.trails < text.splitLines.countP Line.trails) :
    joinLines ls ≠ text ∧ joinLines (ls.map (Dress.nesting pad hp).line) ≠ text.nest pad := by
  have hnest : ∀ ms : List Line,
      (ms.map (Dress.nesting pad hp).line).countP Line.trails = ms.countP Line.trails := by
    intro ms
    rw [List.countP_map]
    refine List.countP_congr fun l _ => ?_
    exact Eq.congr_left (Line.trails_nest hp l)
  constructor
  · rintro rfl
    rw [hd.countP_trails] at h
    exact Nat.lt_irrefl _ h
  · intro he
    have hcount := congrArg (fun t => t.splitLines.countP Line.trails) he
    simp only [((Dress.nesting pad hp).drafted_map_line hd).countP_trails,
      ← Dress.nesting_text hp, Dress.splitLines_text, hnest] at hcount
    omega

/-- A run on a nested document gives the formatter the same sources as the run on the document
itself, reports the same errors, and finds it modified in the same cases. It makes of it the same
text, nested, exactly if no artifact that is written fades. -/
theorem formatWith_nest_iff (rule : HeaderRule) (f : Formatter σ) (options : RunOptions)
    (pad text : Text) (s : σ) (hpad : ∀ c ∈ pad, c = ' ' ∨ c = '\t')
    (hv : options.format.validate = .ok ()) :
    ∃ r r' s', formatWith rule f options text s = (.ok r, s') ∧
      formatWith rule f options (text.nest pad) s = (.ok r', s') ∧ r.Parallel r' ∧
      r'.modified = r.modified ∧
      (r'.text = r.text.nest pad ↔
        pad = [] ∨ ∀ v ∈ visits rule f options text.splitLines text.blocks s,
          v.1.isWrittenIn options.languages →
            ¬ v.1.Fails rule f options.format text.splitLines v.2 →
            ∀ c, Body.classify rule v.1.kind v.1.indent (v.1.body text.splitLines) = .ok c →
              ∀ l ∈ c.lines, l.fades = false) := by
  have hp : ∀ c ∈ pad, isPadding c := fun c hc => isPadding_iff.2 (hpad c hc)
  obtain ⟨r, r', s', hr, hr', hpar, hm, hm', hw⟩ :=
    (Dress.nesting pad hp).formatWith_text rule f text s hv
  rw [Dress.nesting_text] at hr' hm'
  obtain ⟨ps, hl, hps⟩ := Layout.exists_proper text.splitLines
  obtain ⟨ht, ht'⟩ := hw ps hl hps
  have hd := Layout.drafted_rewritten rule f options s hl
  have hiff : r'.text = r.text.nest pad ↔ pad = [] ∨
      ∀ l ∈ ps.rewritten rule f options text s, l ≠ ⟨['\r'], .lf⟩ := by
    rw [ht, ht', ← Dress.nesting_text hp, Dress.joinLines_map_line_iff _ hd]
    refine (forall₂_congr fun l hm => Line.ofText_nest_iff hp (hd.unbroken l hm)).trans ?_
    by_cases hn : pad = [] <;> simp [hn]
  refine ⟨r, r', s', hr, hr', hpar, ?_, by rw [hiff, hps.forall_ne_return_iff hl]⟩
  rw [hm', hm, Bool.eq_iff_iff, bne_iff_ne, bne_iff_ne]
  by_cases hreturn : ⟨['\r'], .lf⟩ ∈ ps.rewritten rule f options text s
  · have hlt := hps.countP_trails_rewritten_lt hl hreturn
    obtain ⟨hne, hne'⟩ := ne_of_countP_trails_lt hp hd hlt
    rw [ht, ht']
    exact iff_of_true hne' hne
  · have hsame : r'.text = r.text.nest pad := by
      refine hiff.2 (.inr ?_)
      rintro l hm rfl
      exact hreturn hm
    rw [hsame]
    exact ((Dress.nesting pad hp).text_injective Function.injective_id).ne_iff

/-- A cell with carriage returns in its option header and in its magics, with two runs of code, and
with lines that stand less deep than its fences. -/
def returnsInCell : Text :=
  (" ```\x7bcode-cell\x7d python\n ---\n \t\r \n \n ---\n" ++
    ":tags: ['a'] \n\nx=1\n\n  !ls \r \n y=2\n ```\n").toList

/-- The answers to the two runs of `returnsInCell`, the first of them longer than its run. -/
def answersForCell : List (Except FormatError Text) :=
  [.ok "x = 1\n\nz = 3\n".toList, .ok "y = 2\n".toList]

/-- Both runs are formatted, and the artifacts lose the space at their ends. None of them fades:
trimming leaves a tab before the carriage return in the header. -/
theorem formatWith_nest_returnsInCell :
    (({} : RunOptions).format.validate = .ok () ∧ ∀ c ∈ ['\t', ' '], c = ' ' ∨ c = '\t') ∧
      ∃ r r' s', formatWith Header.rule Formatter.prepared {} returnsInCell answersForCell =
          (.ok r, s') ∧
        formatWith Header.rule Formatter.prepared {} (returnsInCell.nest ['\t', ' '])
          answersForCell = (.ok r', s') ∧
        r.Parallel r' ∧ r'.modified = r.modified ∧ r'.text = r.text.nest ['\t', ' '] ∧
        r.calls = ["x=1\n".toList, "y=2\n".toList] ∧ r.modified = true ∧
        r.text = (" ```\x7bcode-cell\x7d python\n ---\n \t\r\n\n ---\n" ++
          ":tags: ['a']\n\n x = 1\n\n z = 3\n\n  !ls \r\n y = 2\n ```\n").toList := by
  have hpad : ∀ c ∈ ['\t', ' '], c = ' ' ∨ c = '\t' := by simp
  obtain ⟨r, r', s', hr, hr', hpar, hm, ht⟩ := formatWith_nest_iff Header.rule Formatter.prepared {}
    ['\t', ' '] returnsInCell answersForCell hpad rfl
  have hd : ∀ b ∈ returnsInCell.blocks, ∀ c ∈
      (Body.classify Header.rule b.kind b.indent (b.body returnsInCell.splitLines)).toOption,
      ∀ l ∈ c.lines, l.fades = false := by
    decide +kernel
  have htext : r'.text = r.text.nest ['\t', ' '] := by
    refine ht.2 (.inr fun v hv _ _ c hc => ?_)
    exact hd v.1 (mem_blocks_of_mem_visits hv) c (by rw [hc]; rfl)
  have hrun : ((formatWith Header.rule Formatter.prepared {} returnsInCell answersForCell).1.map
      fun r => (r.calls, r.modified, r.text)) =
        .ok (["x=1\n".toList, "y=2\n".toList], true,
          (" ```\x7bcode-cell\x7d python\n ---\n \t\r\n\n ---\n" ++
            ":tags: ['a']\n\n x = 1\n\n z = 3\n\n  !ls \r\n y = 2\n ```\n").toList) := by
    decide +kernel
  rw [hr] at hrun
  obtain ⟨hcalls, hrest⟩ := Prod.mk.inj (Except.ok.inj hrun)
  obtain ⟨hmodified, hnew⟩ := Prod.mk.inj hrest
  exact ⟨⟨rfl, hpad⟩, r, r', s', hr, hr', hpar, hm, htext, hcalls, hmodified, hnew⟩

/-- A cell with a carriage return and a space on a line of its option header. -/
def returnInHeader : Text :=
  "```\x7bcode-cell\x7d python\n---\n\r \n---\n```\n".toList

/-- Nested before the run, the line of the header keeps its indentation. Nested after the run, it
has become an empty line and gets none. -/
theorem nest_returnInHeader_fades :
    ((formatDocument Formatter.identity {} (returnInHeader.nest "  ".toList) ()).1.map (·.text)) =
        .ok "  ```\x7bcode-cell\x7d python\n  ---\n  \r\n  ---\n  ```\n".toList ∧
      ((formatDocument Formatter.identity {} returnInHeader ()).1.map fun r =>
          r.text.nest "  ".toList) =
        .ok "  ```\x7bcode-cell\x7d python\n  ---\n\r\n  ---\n  ```\n".toList := by
  decide +kernel

end FencedCode
