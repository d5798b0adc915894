import FencedCode.Proofs.Written

/-! The body of a block after formatting. The artifacts keep their order and their places: between
two of them stands what the formatter makes of the code that stood there, and nothing else. -/
namespace FencedCode

variable {σ : Type}

/-- What is left of an artifact. A cell magic and the lines after one stay as they are, all other
artifacts lose the spaces and tabs at their ends. -/
inductive BodyLine.Leaves (l : BodyLine) : Text → Prop
  | verbatim (frozen : l.kind = .cellMagic ∨ l.kind = .frozen) : Leaves l (l.raw ++ l.ending.text)
  | trimmed {kept pad : Text} (thawed : l.kind ≠ .cellMagic ∧ l.kind ≠ .frozen)
      (cut : l.raw = kept ++ pad) (padding : ∀ c ∈ pad, c = ' ' ∨ c = '\t')
      (bare : ∀ c ∈ kept.getLast?, c ≠ ' ' ∧ c ≠ '\t') : Leaves l (kept ++ l.ending.text)

/-- What takes the place of the source lines between two artifacts, and the states of the formatter
before and after. Blank lines stay as they are; code is replaced by the formatter's answer, the
lines of which get the block's indentation and the given ending, or only the ending if they are
blank. -/
inductive Fills (f : Formatter σ) (options : FormatOptions) (indent : Text) (newline : Ending) :
    List BodyLine → σ → Text → σ → Prop
  | blank {run : List BodyLine} {s : σ} (blank : ∀ l ∈ run, l.isBlank) :
      Fills f options indent newline run s (run.flatMap BodyLine.verbatim) s
  | code {leading code trailing : List BodyLine} {answer : Text} {s s' : σ}
      (leads : ∀ l ∈ leading, l.isBlank) (trails : ∀ l ∈ trailing, l.isBlank)
      (first : ∃ l ∈ code.head?, l.isBlank = false) (last : ∃ l ∈ code.getLast?, l.isBlank = false)
      (answered : f.format (code.flatMap (·.text ++ ['\n'])) options s = (.ok answer, s')) :
      Fills f options indent newline (leading ++ (code ++ trailing)) s
        (leading.flatMap BodyLine.verbatim ++
          answer.lines.flatMap
            (fun t => (if t.isAllBlank then [] else indent ++ t) ++ newline.text) ++
          trailing.flatMap BodyLine.verbatim) s'

/-- The text of a body after formatting: what fills the place before the first artifact, what is
left of this artifact, what fills the place after it, and so on. The formatter takes up each place
in the state in which the last one has left it. -/
inductive Weaves (f : Formatter σ) (options : FormatOptions) (indent : Text) (newline : Ending) :
    List BodyLine → σ → Text → σ → Prop
  | last {run : List BodyLine} {t : Text} {s s' : σ} (source : ∀ l ∈ run, l.kind = .source)
      (fills : Fills f options indent newline run s t s') :
      Weaves f options indent newline run s t s'
  | next {run ls : List BodyLine} {a : BodyLine} {t k u : Text} {s s' s'' : σ}
      (source : ∀ l ∈ run, l.kind = .source) (fills : Fills f options indent newline run s t s')
      (artifact : a.kind ≠ .source) (leaves : a.Leaves k)
      (rest : Weaves f options indent newline ls s' u s'') :
      Weaves f options indent newline (run ++ a :: ls) s (t ++ (k ++ u)) s''

/-- The attempt succeeds with the value, and leaves the formatter in the state. -/
def Attempt.Gives {α : Type} (a : Attempt σ α) (x : α) (s : σ) : Prop :=
  a.result = .ok x ∧ a.state = s

theorem BodyLine.leaves_iff {l : BodyLine} {t : Text} :
    l.Leaves t ↔ t = l.preserved ++ l.ending.text := by
  rw [preserved]
  constructor
  · intro h
    cases h with
    | verbatim frozen => rw [if_pos (LineKind.isVerbatim_iff.2 frozen)]
    | @trimmed kept pad thawed cut padding bare =>
      rw [if_neg (by rw [LineKind.isVerbatim_iff, not_or]; exact thawed), cut,
        Text.trimPadding_append_of_padding _ fun c hc => isPadding_iff.2 (padding c hc)]
      rcases List.eq_nil_or_concat kept with rfl | ⟨d, c, rfl⟩
      · rfl
      · have hc := bare c (by simp)
        rw [List.concat_eq_append, Text.trimPadding_append_singleton]
        simp [isPadding, hc]
  · rintro rfl
    split
    · next h => exact .verbatim (LineKind.isVerbatim_iff.1 h)
    · next h =>
      rw [LineKind.isVerbatim_iff, not_or] at h
      obtain ⟨pad, hp, ha⟩ := l.raw.exists_trimPadding_append
      refine .trimmed h hp (fun c hc => isPadding_iff.1 (ha c hc)) ?_
      intro c hc
      obtain ⟨d, hd⟩ := List.getLast?_eq_some_iff.1 hc
      have hn := Text.not_isPadding_of_trimPadding hd
      simpa [isPadding] using hn

section Fills

variable {f : Formatter σ} {options : FormatOptions} {indent : Text} {newline : Ending}

theorem fills_nil_iff {t : Text} {s s' : σ} :
    Fills f options indent newline [] s t s' ↔ t = [] ∧ s = s' := by
  constructor
  · generalize hr : ([] : List BodyLine) = run
    intro h
    cases h with
    | blank => exact ⟨by rw [← hr]; rfl, rfl⟩
    | @code leading code trailing _ _ _ _ _ first =>
      obtain ⟨l, hl, -⟩ := first
      simp only [List.nil_eq, List.append_eq_nil_iff] at hr
      simp [hr.2.1] at hl
  · rintro ⟨rfl, rfl⟩
    exact .blank (by simp)

/-- Source lines can be added before a body that does not start with one. -/
theorem Weaves.prepend {run tail : List BodyLine} {t u : Text} {s s' s'' : σ}
    (h : Weaves f options indent newline tail s' u s'') (hr : ∀ l ∈ run, l.kind = .source)
    (ht : ∀ l ∈ tail.head?, l.kind ≠ .source) (hf : Fills f options indent newline run s t s') :
    Weaves f options indent newline (run ++ tail) s (t ++ u) s'' := by
  -- no source stands before the first artifact of `tail`, so the place there is free for `run`
  have hnil : ∀ {ls ms : List BodyLine}, (∀ l ∈ ls, l.kind = .source) →
      (∀ l ∈ (ls ++ ms).head?, l.kind ≠ .source) → ls = [] := by
    intro ls ms hs hh
    cases ls with
    | nil => rfl
    | cons l ls => exact absurd (hs l List.mem_cons_self) (hh l rfl)
  cases h with
  | last source fills =>
    rw [← List.append_nil tail] at ht
    obtain rfl := hnil source ht
    obtain ⟨rfl, rfl⟩ := fills_nil_iff.1 fills
    rw [List.append_nil, List.append_nil]
    exact .last hr hf
  | next source fills artifact leaves rest =>
    obtain rfl := hnil source ht
    obtain ⟨rfl, rfl⟩ := fills_nil_iff.1 fills
    rw [List.nil_append, List.nil_append]
    exact .next hr hf artifact leaves rest

end Fills

namespace Block

variable (b : Block) (f : Formatter σ) (options : FormatOptions) (newline : Ending)

theorem formatRun_gives_iff (first : Nat) (run : List BodyLine) {t : Text} {s s' : σ} :
    (b.formatRun f options newline first run s).Gives t s' ↔
      Fills f options b.indent newline run s t s' := by
  constructor
  · rintro ⟨hr, hs⟩
    rw [formatRun] at hr hs
    by_cases hc : (Run.ofLines run).code = []
    · simp only [hc, List.isEmpty_nil, if_true] at hr hs
      obtain rfl := Except.ok.inj hr
      obtain rfl := hs
      exact .blank (Run.code_eq_nil_iff.1 hc)
    · simp only [List.isEmpty_iff, hc, if_false] at hr hs
      cases hf : f.format (Run.ofLines run).source options s with
      | mk result state =>
        rw [hf] at hr hs
        cases result with
        | error e => contradiction
        | ok answer =>
          obtain rfl := Except.ok.inj hr
          obtain rfl := hs
          obtain ⟨hfirst, hlast⟩ := Run.exists_not_isBlank_code hc
          conv => arg 5; rw [← Run.ofLines_append run]
          exact .code Run.isBlank_leading Run.isBlank_trailing hfirst hlast hf
  · intro h
    cases h with
    | blank blank =>
      rw [formatRun, Run.code_eq_nil_iff.2 blank]
      exact ⟨rfl, rfl⟩
    | @code leading code trailing answer _ _ leads trails first last answered =>
      obtain ⟨x, hx, hxb⟩ := first
      obtain ⟨y, hy, hyb⟩ := last
      have hn : code ≠ [] := by
        rintro rfl
        contradiction
      have hof := Run.ofLines_append_code leads trails hn
        (fun l hl => Option.mem_unique hl hx ▸ hxb) (fun l hl => Option.mem_unique hl hy ▸ hyb)
      have hs : (⟨leading, code, trailing⟩ : Run).source = code.flatMap (·.text ++ ['\n']) := rfl
      rw [formatRun, hof]
      simp only [List.isEmpty_iff, hn, if_false, hs, answered]
      exact ⟨rfl, rfl⟩

theorem formatSegments_artifact_gives_iff {l : BodyLine} {segs : List Segment} {t : Text}
    {s s' : σ} :
    (b.formatSegments f options newline (.artifact l :: segs) s).Gives t s' ↔
      ∃ u, (b.formatSegments f options newline segs s).Gives u s' ∧
        l.preserved ++ l.ending.text ++ u = t := by
  rw [Attempt.Gives, formatSegments_artifact_result, Except.map_eq_ok_iff]
  constructor
  · rintro ⟨⟨u, hu, ht⟩, hs⟩
    exact ⟨u, ⟨hu, hs⟩, ht⟩
  · rintro ⟨u, ⟨hu, hs⟩, ht⟩
    exact ⟨⟨u, hu, ht⟩, hs⟩

theorem formatSegments_source_gives_iff {first : Nat} {run : List BodyLine} {segs : List Segment}
    {t : Text} {s s'' : σ} :
    (b.formatSegments f options newline (.source first run :: segs) s).Gives t s'' ↔
      ∃ u v s', (b.formatRun f options newline first run s).Gives u s' ∧
        (b.formatSegments f options newline segs s').Gives v s'' ∧ u ++ v = t := by
  cases ha : (b.formatRun f options newline first run s).result with
  | error e =>
    rw [Attempt.Gives, formatSegments_source_of_error ha]
    simp [Attempt.Gives, ha]
  | ok u =>
    obtain ⟨hr, hs⟩ := formatSegments_source_of_ok ha segs
    rw [Attempt.Gives, hr, hs, Except.map_eq_ok_iff]
    constructor
    · rintro ⟨⟨v, hv, ht⟩, hs⟩
      exact ⟨u, v, _, ⟨ha, rfl⟩, ⟨hv, hs⟩, ht⟩
    · rintro ⟨u', v, _, ⟨hu, rfl⟩, ⟨hv, hs⟩, ht⟩
      obtain rfl := Except.ok.inj (ha.symm.trans hu)
      exact ⟨⟨v, hv, ht⟩, hs⟩

/-- A run at the start of a body is formatted before the rest, also if there is nothing in it. -/
theorem formatSegments_run_gives_iff {run tail : List BodyLine} (hs : ∀ l ∈ run, l.kind = .source)
    (ht : ∀ l ∈ tail.head?, l.kind ≠ .source) (i : Nat) {t : Text} {s s'' : σ} :
    (b.formatSegments f options newline (segmentsFrom i (run ++ tail)) s).Gives t s'' ↔
      ∃ u v s', Fills f options b.indent newline run s u s' ∧
        (b.formatSegments f options newline (segmentsFrom (i + run.length) tail) s').Gives v s'' ∧
        u ++ v = t := by
  by_cases hr : run = []
  · subst hr
    simp [fills_nil_iff]
  · rw [segmentsFrom_run hr (by simpa [LineKind.isArtifact] using hs)
      (by simpa [LineKind.isArtifact] using ht), formatSegments_source_gives_iff]
    simp only [formatRun_gives_iff]

/-- Formatting the segments of a body is weaving it. -/
theorem formatSegments_gives_iff (ls : List BodyLine) (i : Nat) {t : Text} {s s' : σ} :
    (b.formatSegments f options newline (segmentsFrom i ls) s).Gives t s' ↔
      Weaves f options b.indent newline ls s t s' := by
  constructor
  · induction ls using bodyInduction generalizing i t s with
    | nil =>
      rintro ⟨hr, hs⟩
      obtain rfl := Except.ok.inj hr
      obtain rfl := hs
      exact .last (by simp) (fills_nil_iff.2 ⟨rfl, rfl⟩)
    | artifact l ls hl ih =>
      rw [segmentsFrom_artifact hl, formatSegments_artifact_gives_iff]
      rintro ⟨u, hu, rfl⟩
      have hn : Fills f options b.indent newline [] s [] s := fills_nil_iff.2 ⟨rfl, rfl⟩
      have hw := Weaves.next (by simp) hn (by simpa [LineKind.isArtifact] using hl)
        (BodyLine.leaves_iff.2 rfl) (ih (i + 1) hu)
      exact hw
    | run run tail hr hs ht ih =>
      have hs' : ∀ l ∈ run, l.kind = .source := by simpa [LineKind.isArtifact] using hs
      have ht' : ∀ l ∈ tail.head?, l.kind ≠ .source := by simpa [LineKind.isArtifact] using ht
      rw [formatSegments_run_gives_iff b f options newline hs' ht']
      rintro ⟨u, v, s₁, hf, hv, rfl⟩
      exact (ih _ hv).prepend hs' ht' hf
  · intro h
    induction h generalizing i with
    | @last run t s s' source fills =>
      rw [← List.append_nil run, formatSegments_run_gives_iff b f options newline source (by simp)]
      exact ⟨t, [], s', fills, ⟨rfl, rfl⟩, List.append_nil t⟩
    | @next run ls a t k u s s₁ s₂ source fills artifact leaves rest ih =>
      have ha : a.kind.isArtifact := by simpa [LineKind.isArtifact] using artifact
      rw [formatSegments_run_gives_iff b f options newline source (by simpa using artifact)]
      refine ⟨t, k ++ u, s₁, fills, ?_, rfl⟩
      rw [segmentsFrom_artifact ha, formatSegments_artifact_gives_iff]
      exact ⟨u, ih _, by rw [BodyLine.leaves_iff.1 leaves]⟩

end Block

/-- A block of a document gets a new body exactly if its lines can be classified and the formatter
answers, one after the other, all that it is asked; the new body has the artifacts of the old one in
the same order, each with its ending, and only the code between them is replaced. -/
theorem Block.format_weaves_iff (rule : HeaderRule) (f : Formatter σ) (options : FormatOptions)
    (text : Text) (b : Block) (s s' : σ) (t : Text) (hb : b ∈ text.blocks) :
    (∃ new, (b.format rule f options text.splitLines s).Gives new s' ∧ new.body = t) ↔
      ∃ c, Body.classify rule b.kind b.indent (b.body text.splitLines) = .ok c ∧
        c.lines.map BodyLine.line = b.body text.splitLines ∧
        (∀ l ∈ c.lines.head?, newlineOf c.lines = l.ending) ∧
        Weaves f options b.indent (newlineOf c.lines) c.lines s t s' := by
  have hw := (Text.wellFormed_of_mem_blocks b hb).2
  rw [format]
  cases hc : Body.classify rule b.kind b.indent (b.body text.splitLines) with
  | error fault => simp [Attempt.Gives]
  | ok c =>
    have hl := (Body.classify_eq_ok hc).1
    have hn : ∀ l ∈ c.lines.head?, newlineOf c.lines = l.ending := by
      intro l hm
      obtain ⟨ls, he⟩ := List.head?_eq_some_iff.1 hm
      have hlw := hw l.line (hl ▸ List.mem_map_of_mem (List.mem_of_mem_head? hm))
      rw [he, newlineOf_cons_of_ended hlw.ended]
    trans (b.formatSegments f options (newlineOf c.lines) (segments c.lines) s).Gives t s'
    · cases hr : (b.formatSegments f options (newlineOf c.lines) (segments c.lines) s).result <;>
        simp [Attempt.Gives, hr, and_comm]
    · rw [segments, formatSegments_gives_iff]
      constructor
      · intro h
        exact ⟨c, rfl, hl, hn, h⟩
      · rintro ⟨_, ⟨⟩, -, -, h⟩
        exact h

/-- A cell with artifacts of several kinds, and with line endings of both kinds. -/
def mixedCell : Text :=
  ("```\x7bcode-cell\x7d py\n:tags: ['a'] \t\r\n\n  \nx=1\n\n!ls \ny=2\n" ++
    "%%sh \n z \n```\n").toList

/-- The blank lines around the first source stay, and the empty answer to the second one leaves
nothing between its neighbours. -/
theorem format_weaves_mixedCell :
    ∃ b ∈ mixedCell.blocks, ∃ c,
      Body.classify Header.rule b.kind b.indent (b.body mixedCell.splitLines) = .ok c ∧
        c.lines.map BodyLine.line = b.body mixedCell.splitLines ∧
        (∀ l ∈ c.lines.head?, newlineOf c.lines = l.ending) ∧
        Weaves Formatter.prepared {} b.indent (newlineOf c.lines) c.lines
          [.ok "x = 1\n \ny\r\n".toList, .ok []]
          ":tags: ['a']\r\n\n  \nx = 1\r\n\r\ny\r\n\n!ls\n%%sh \n z \n".toList [] := by
  have hb : (⟨0, 10, ⟨[], ⟨'\x60', 3⟩, "\x7bcode-cell\x7d py".toList⟩, []⟩ : Block) ∈
      mixedCell.blocks := by
    decide +kernel
  refine ⟨_, hb, (Block.format_weaves_iff Header.rule Formatter.prepared {} mixedCell _ _ _ _ hb).1
    ⟨⟨_, true, some [['a']]⟩, ⟨?_, ?_⟩, rfl⟩⟩
  · decide +kernel
  · decide +kernel

end FencedCode
