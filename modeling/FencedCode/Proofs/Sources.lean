import FencedCode.Proofs.Feeding
import FencedCode.Proofs.Settling
import Mathlib.Data.List.DropRight
import Mathlib.Data.List.Forall2

/-! The sources that reach the formatter: the code between the artifacts of a body, without the
blank lines around it, and nothing that a notebook would not run as code. -/
namespace FencedCode

variable {σ : Type}

/-- A body cut around some of its lines: a stretch with code in it, the blank lines at the ends of
the stretch, and what stands before and after it. -/
structure Stretch where
  before : List BodyLine
  leading : List BodyLine
  code : List BodyLine
  trailing : List BodyLine
  after : List BodyLine

namespace Stretch

def run (w : Stretch) : List BodyLine := w.leading ++ (w.code ++ w.trailing)

/-- The index of the first line of code. -/
def start (w : Stretch) : Nat := w.before.length + w.leading.length

/-- The lines of code without the block's indentation, each ended by a line feed. -/
def text (w : Stretch) : Text := w.code.flatMap (·.text ++ ['\n'])

/-- The stretch is a maximal one of source lines in the given body, and its code goes from the first
to the last of its lines that are not blank. -/
structure IsOf (ls : List BodyLine) (w : Stretch) : Prop where
  cut : w.before ++ (w.run ++ w.after) = ls
  source : ∀ l ∈ w.run, l.kind = .source
  left : ∀ l ∈ w.before.getLast?, l.kind ≠ .source
  right : ∀ l ∈ w.after.head?, l.kind ≠ .source
  leading : ∀ l ∈ w.leading, l.isBlank
  trailing : ∀ l ∈ w.trailing, l.isBlank
  first : ∃ l ∈ w.code.head?, l.isBlank = false
  last : ∃ l ∈ w.code.getLast?, l.isBlank = false

end Stretch

/-- The texts are those of all stretches of a body, in order. -/
def ListsSources (ls : List BodyLine) (ts : List Text) : Prop :=
  ∃ ws : List Stretch, ws.Pairwise (fun v w => v.start < w.start) ∧ (∀ w, w ∈ ws ↔ w.IsOf ls) ∧
    ts = ws.map Stretch.text

/-- What a run has for the formatter in a block: the sources of the body, if the block is in a
chosen language and all of its lines can be read. -/
structure Block.Offers (rule : HeaderRule) (languages : List Text) (lines : List Line) (b : Block)
    (ts : List Text) : Prop where
  foreign : b.isWrittenIn languages = false → ts = []
  unreadable : ∀ fault, Body.classify rule b.kind b.indent (b.body lines) = .error fault → ts = []
  readable : b.isWrittenIn languages →
    ∀ c, Body.classify rule b.kind b.indent (b.body lines) = .ok c → ListsSources c.lines ts

/-- Lines of pure code: the first and the last one are not blank, none begins like a shell command
or a magic, and in a cell none is a line of tags. -/
structure PureLines (kind : BlockKind) (us : List Text) : Prop where
  unbroken : ∀ u ∈ us, '\n' ∉ u
  first : ∃ u ∈ us.head?, u.isAllBlank = false
  last : ∃ u ∈ us.getLast?, u.isAllBlank = false
  undirected : ∀ u ∈ us, ∀ c ∈ u.trimStart.head?, c ≠ '!' ∧ c ≠ '%'
  untagged : kind = .cell → ∀ u ∈ us, Tags.isTagLine u = false

/-- The texts of a body after its option header, if it has one. -/
def afterHeader : BlockKind → List Text → List Text
  | .cell, t :: ts =>
    if Header.isDelimiter t then (ts.dropWhile (!Header.isDelimiter ·)).drop 1 else t :: ts
  | _, ts => ts

/-- A line that begins like a magic and is none, or a line of tags that cannot be read. -/
def IsMalformed (kind : BlockKind) (t : Text) : Prop :=
  (∃ e, classifyLine kind t = .error e) ∨
    (kind = .cell ∧ Tags.isTagLine t ∧ ∃ e, Tags.parse t = .error e)

/-- There is a malformed line in the body, outside of the option header and with no cell magic
before it. -/
def Block.HasMalformed (lines : List Line) (b : Block) : Prop :=
  ∃ us u vs, afterHeader b.kind
      ((b.body lines).map fun l => Text.stripIndent b.indent l.content) = us ++ u :: vs ∧
    (∀ x ∈ us, classifyLine b.kind x ≠ .ok .cellMagic) ∧ IsMalformed b.kind u

namespace Stretch

variable {w : Stretch} {ls ms : List BodyLine}

theorem IsOf.code_ne_nil (h : w.IsOf ls) : w.code ≠ [] := by
  obtain ⟨l, hl, -⟩ := h.first
  rintro hn
  simp [hn] at hl

theorem IsOf.run_ne_nil (h : w.IsOf ls) : w.run ≠ [] := by
  simp [run, h.code_ne_nil]

theorem not_isOf_nil (w : Stretch) : ¬ w.IsOf [] := by
  intro h
  have hc := h.cut
  simp [h.run_ne_nil] at hc

/-- The stretch in a body with more lines at its start. -/
def shift (ms : List BodyLine) (w : Stretch) : Stretch := { w with before := ms ++ w.before }

theorem start_shift (ms : List BodyLine) (w : Stretch) :
    (w.shift ms).start = ms.length + w.start := by
  simp [start, shift, Nat.add_assoc]

/-- The stretches of a body are also those of a longer one, if the new lines do not prolong the
first stretch. -/
theorem IsOf.shift (h : w.IsOf ls)
    (hm : (∀ l ∈ ms.getLast?, l.kind ≠ .source) ∨ ∀ l ∈ ls.head?, l.kind ≠ .source) :
    (w.shift ms).IsOf (ms ++ ls) where
  cut := by rw [Stretch.shift, List.append_assoc, ← h.cut]; rfl
  source := h.source
  left := by
    intro l hl
    by_cases hb : w.before = []
    · rw [Stretch.shift, hb, List.append_nil] at hl
      rcases hm with hm | hm
      · exact hm l hl
      · obtain ⟨x, xs, hx⟩ := List.exists_cons_of_ne_nil h.run_ne_nil
        have hc := h.cut
        rw [hb, hx] at hc
        exact absurd (h.source x (hx ▸ List.mem_cons_self)) (hm x (by rw [← hc]; rfl))
    · rw [Stretch.shift, List.getLast?_append_of_ne_nil _ hb] at hl
      exact h.left l hl
  right := h.right
  leading := h.leading
  trailing := h.trailing
  first := h.first
  last := h.last

/-- A stretch that lies behind the first lines of a body is one of the rest. -/
theorem IsOf.exists_shift (h : w.IsOf (ms ++ ls)) (hl : ms.length ≤ w.before.length) :
    ∃ v : Stretch, v.IsOf ls ∧ v.shift ms = w := by
  obtain ⟨b, hb⟩ : ms <+: w.before :=
    List.prefix_of_prefix_length_le ⟨ls, rfl⟩ ⟨w.run ++ w.after, h.cut⟩ hl
  have hc := h.cut
  rw [← hb, List.append_assoc, List.append_cancel_left_eq] at hc
  refine ⟨{ w with before := b }, ⟨hc, h.source, fun l hm => ?_, h.right, h.leading, h.trailing,
    h.first, h.last⟩, ?_⟩
  · refine h.left l ?_
    rw [← hb, List.getLast?_append_of_ne_nil ms]
    · exact hm
    · rintro rfl
      contradiction
  · rw [Stretch.shift, hb]

/-- An artifact at the start of a body is before every stretch. -/
theorem isOf_cons_iff {l : BodyLine} (hl : l.kind ≠ .source) :
    w.IsOf (l :: ls) ↔ ∃ v : Stretch, v.IsOf ls ∧ v.shift [l] = w := by
  constructor
  · intro h
    have ha : w.IsOf ([l] ++ ls) := h
    refine ha.exists_shift (Nat.one_le_iff_ne_zero.2 fun hb => ?_)
    obtain ⟨x, xs, hx⟩ := List.exists_cons_of_ne_nil h.run_ne_nil
    have hc := h.cut
    rw [List.length_eq_zero_iff.1 hb, hx] at hc
    obtain ⟨rfl, -⟩ := List.cons.inj hc
    exact hl (h.source x (hx ▸ List.mem_cons_self))
  · rintro ⟨v, hv, rfl⟩
    have ha : (v.shift [l]).IsOf ([l] ++ ls) := hv.shift (.inl (by simpa using hl))
    exact ha

/-- The stretch at the start of a body, if the source lines there have code in them. -/
def ofRun (run tail : List BodyLine) : Stretch :=
  ⟨[], (Run.ofLines run).leading, (Run.ofLines run).code, (Run.ofLines run).trailing, tail⟩

theorem run_ofRun (run tail : List BodyLine) : (ofRun run tail).run = run := Run.ofLines_append run

section Run

variable {run tail : List BodyLine} (hr : run ≠ []) (hs : ∀ l ∈ run, l.kind = .source)
  (ht : ∀ l ∈ tail.head?, l.kind ≠ .source)

include hs ht in
theorem isOf_ofRun (hc : (Run.ofLines run).code ≠ []) :
    (ofRun run tail).IsOf (run ++ tail) where
  cut := by rw [run_ofRun]; rfl
  source := by rw [run_ofRun]; exact hs
  left := by simp [ofRun]
  right := ht
  leading := Run.isBlank_leading
  trailing := Run.isBlank_trailing
  first := (Run.exists_not_isBlank_code hc).1
  last := (Run.exists_not_isBlank_code hc).2

include hr hs ht in
/-- The source lines up to the first artifact are a stretch if they have code in them, and every
other stretch lies behind them. -/
theorem isOf_append_iff :
    w.IsOf (run ++ tail) ↔
      ((Run.ofLines run).code ≠ [] ∧ w = ofRun run tail) ∨
        ∃ v : Stretch, v.IsOf tail ∧ v.shift run = w := by
  constructor
  · intro h
    rcases Nat.lt_or_ge w.before.length run.length with hlt | hge
    · -- Lines before the stretch would be source lines, and the stretch would not be maximal.
      have hb : w.before = [] := by
        obtain ⟨b, hb⟩ : w.before <+: run :=
          List.prefix_of_prefix_length_le ⟨_, h.cut⟩ ⟨tail, rfl⟩ (Nat.le_of_lt hlt)
        by_contra hn
        have hm := List.getLast?_eq_some_getLast hn
        refine h.left _ hm (hs _ ?_)
        rw [← hb]
        exact List.mem_append_left b (List.getLast_mem hn)
      have hc := h.cut
      rw [hb, List.nil_append] at hc
      -- A body is cut in one way only into its first source lines and the rest.
      have hsource : ∀ l : BodyLine, l.kind = .source → l.kind.isArtifact = false := by
        simp +contextual [LineKind.isArtifact]
      have hart : ∀ l : BodyLine, l.kind ≠ .source → l.kind.isArtifact := by
        simp [LineKind.isArtifact]
      have hcut := segmentsFrom_run h.run_ne_nil (fun l hl => hsource l (h.source l hl))
        (fun l hl => hart l (h.right l hl)) 0
      rw [hc, segmentsFrom_run hr (fun l hl => hsource l (hs l hl))
        (fun l hl => hart l (ht l hl)) 0, List.cons.injEq, Segment.source.injEq] at hcut
      have hrun : w.run = run := hcut.1.2.symm
      rw [hrun, List.append_cancel_left_eq] at hc
      have hof : Run.ofLines run = ⟨w.leading, w.code, w.trailing⟩ := by
        rw [← hrun]
        obtain ⟨x, hx, hxb⟩ := h.first
        obtain ⟨y, hy, hyb⟩ := h.last
        refine Run.ofLines_append_code h.leading h.trailing h.code_ne_nil ?_ ?_
        · intro l hl
          rwa [Option.mem_unique hl hx]
        · intro l hl
          rwa [Option.mem_unique hl hy]
      refine .inl ⟨by rw [hof]; exact h.code_ne_nil, ?_⟩
      rw [ofRun, hof, ← hc, ← hb]
    · exact .inr (h.exists_shift hge)
  · rintro (⟨hc, rfl⟩ | ⟨v, hv, rfl⟩)
    · exact isOf_ofRun hs ht hc
    · exact hv.shift (.inr ht)

end Run

theorem pairwise_map_shift {ws : List Stretch} (h : ws.Pairwise fun v w => v.start < w.start)
    (ms : List BodyLine) : (ws.map (shift ms)).Pairwise fun v w => v.start < w.start := by
  rw [List.pairwise_map]
  refine h.imp fun {v w} hlt => ?_
  rw [start_shift, start_shift]
  omega

theorem map_text_map_shift (ws : List Stretch) (ms : List BodyLine) :
    (ws.map (shift ms)).map text = ws.map text := by
  rw [List.map_map]
  rfl

theorem start_ofRun_lt {run : List BodyLine} (hc : (Run.ofLines run).code ≠ [])
    (tail : List BodyLine) : (ofRun run tail).start < run.length := by
  have hl := congrArg List.length (Run.ofLines_append run)
  have hp := List.length_pos_of_ne_nil hc
  simp only [List.length_append] at hl
  simp only [start, ofRun, List.length_nil]
  omega

end Stretch

/-- The segments with code in them are the stretches of the body. -/
theorem listsSources_segmentsFrom (i : Nat) (ls : List BodyLine) :
    ListsSources ls ((segmentsFrom i ls).filterMap Segment.source?) := by
  induction ls using bodyInduction generalizing i with
  | nil =>
    refine ⟨[], .nil, fun w => ?_, rfl⟩
    simp only [List.not_mem_nil, false_iff]
    exact w.not_isOf_nil
  | artifact l ls hl ih =>
    obtain ⟨ws, hp, hm, ht⟩ := ih (i + 1)
    refine ⟨ws.map (Stretch.shift [l]), Stretch.pairwise_map_shift hp [l], fun w => ?_, ?_⟩
    · rw [List.mem_map, Stretch.isOf_cons_iff (by simpa [LineKind.isArtifact] using hl)]
      simp only [hm]
    · rw [segmentsFrom_artifact hl, List.filterMap_cons_none rfl, ht, Stretch.map_text_map_shift]
  | run run tail hr hs ht ih =>
    obtain ⟨ws, hp, hm, hw⟩ := ih (i + run.length)
    have hs' : ∀ l ∈ run, l.kind = .source := by simpa [LineKind.isArtifact] using hs
    have ht' : ∀ l ∈ tail.head?, l.kind ≠ .source := by simpa [LineKind.isArtifact] using ht
    rw [segmentsFrom_run hr hs ht]
    by_cases hc : (Run.ofLines run).code = []
    · refine ⟨ws.map (Stretch.shift run), Stretch.pairwise_map_shift hp run, fun w => ?_, ?_⟩
      · rw [List.mem_map, Stretch.isOf_append_iff hr hs' ht']
        simp only [hm, hc, ne_eq, not_true_eq_false, false_and, false_or]
      · rw [List.filterMap_cons_none (Segment.source?_of_no_code hc), hw,
          Stretch.map_text_map_shift]
    · refine ⟨Stretch.ofRun run tail :: ws.map (Stretch.shift run),
        .cons (fun w hmem => ?_) (Stretch.pairwise_map_shift hp run), fun w => ?_, ?_⟩
      · obtain ⟨v, -, rfl⟩ := List.mem_map.1 hmem
        rw [Stretch.start_shift]
        exact Nat.lt_of_lt_of_le (Stretch.start_ofRun_lt hc tail) (Nat.le_add_right _ _)
      · rw [List.mem_cons, List.mem_map, Stretch.isOf_append_iff hr hs' ht']
        simp only [hm, hc, ne_eq, not_false_eq_true, true_and]
      · rw [List.filterMap_cons_some (Segment.source?_of_code hc), hw, List.map_cons,
          Stretch.map_text_map_shift]
        rfl

theorem Block.offers_offered (rule : HeaderRule) (languages : List Text) (lines : List Line)
    (b : Block) : b.Offers rule languages lines (b.offered rule languages lines) where
  foreign := fun h => by rw [offered, if_neg (by simp [h])]
  unreadable := fun fault h => by rw [offered, sources, h, ite_self]
  readable := fun hw c h => by
    rw [offered, if_pos hw, sources, h]
    exact listsSources_segmentsFrom 0 c.lines

section Lines

theorem classifyMagic_cases {line trimmed : Text} {k : LineKind}
    (h : classifyMagic line trimmed = .ok k) : k = .lineMagic ∨ k = .cellMagic := by
  rw [classifyMagic] at h
  split at h
  · exact .inl (Except.ok.inj h).symm
  · split at h
    · exact .inr (Except.ok.inj h).symm
    · contradiction
  · contradiction

theorem isTagLine_trimStart (t : Text) : Tags.isTagLine t.trimStart = Tags.isTagLine t := by
  rw [Tags.isTagLine, Tags.isTagLine, Text.trimStart, Text.trimStart, List.dropWhile_idempotent]

/-- A line that is read as source, or as an option where none is expected, is pure code. -/
theorem pure_of_classifyLine {kind : BlockKind} {t : Text} {k : LineKind}
    (hk : k = .source ∨ k = .cellOption) (h : classifyLine kind t = .ok k) :
    (∀ c ∈ t.trimStart.head?, c ≠ '!' ∧ c ≠ '%') ∧ (kind = .cell → Tags.isTagLine t = false) := by
  rw [classifyLine] at h
  split at h
  · obtain rfl := Except.ok.inj h
    simp at hk
  · rcases classifyMagic_cases h with rfl | rfl <;> simp at hk
  · next hcommand hmagic =>
    constructor
    · intro c hc
      obtain ⟨r, hr⟩ := List.head?_eq_some_iff.1 hc
      constructor
      · rintro rfl
        exact hcommand r hr
      · rintro rfl
        exact hmagic r hr
    · rintro rfl
      by_contra ht
      rw [if_pos (by simpa [isTagLine_trimStart] using ht)] at h
      obtain rfl := Except.ok.inj h
      simp at hk

theorem classifyLine_of_isTagLine {t : Text} (h : Tags.isTagLine t) :
    classifyLine .cell t = .ok .tags := by
  obtain ⟨r, hr⟩ := Tags.isTagLine_iff.1 h
  have hc : t.trimStart = ':' :: ("tags:".toList ++ r) := hr.symm
  have ht : Tags.isTagLine t.trimStart := by rwa [isTagLine_trimStart]
  rw [classifyLine]
  simp only [ht]
  rw [hc]
  rfl

variable {rule : HeaderRule} {kind : BlockKind} {indent : Text}

theorem Phase.ofKind_cases {b : Bool} {k k' : LineKind} {next : Phase}
    (h : Phase.ofKind b k = (k', next)) :
    (k' = .source → k = .source ∨ k = .cellOption) ∧ (k = .tags → k' = .tags) ∧
      (k ≠ .cellMagic → next = .options ∨ next = .code) := by
  cases k <;> cases b <;> cases h <;> simp

theorem Reads.pure_of_mem {p last : Phase} {ls : List BodyLine}
    (h : Reads rule kind indent p ls last) :
    ∀ l ∈ ls, l.kind = .source → (∀ c ∈ l.text.trimStart.head?, c ≠ '!' ∧ c ≠ '%') ∧
      (kind = .cell → Tags.isTagLine l.text = false) := by
  induction h with
  | nil => simp
  | @cons p next last l ls tags text step tagged rest ih =>
    refine List.forall_mem_cons.2 ⟨fun hk => ?_, ih⟩
    rw [hk] at step
    rw [Phase.step_directive (Phase.eq_code_of_step step).2] at step
    cases hc : classifyLine kind l.text with
    | error e =>
      rw [hc] at step
      contradiction
    | ok k =>
      rw [hc] at step
      exact pure_of_classifyLine ((Phase.ofKind_cases (Except.ok.inj step)).1 rfl) hc

/-- A phase in which the next line is what its first characters make it. -/
def Phase.Directs (p : Phase) (ls : List BodyLine) : Prop :=
  p = .options ∨ p = .code ∨ (p = .first ∧ ∀ l ∈ ls.head?, Header.isDelimiter l.text = false)

theorem Phase.Directs.step {p next : Phase} {l : BodyLine} {ls : List BodyLine}
    (hp : p.Directs (l :: ls)) (h : p.step rule kind l.text = .ok (l.kind, next)) :
    ∃ k, classifyLine kind l.text = .ok k ∧ Phase.ofKind (p != .code) k = (l.kind, next) := by
  rw [step_directive (hp.imp_right (.imp_right (.imp_right fun hd => hd l rfl)))] at h
  cases hc : classifyLine kind l.text with
  | error e =>
    rw [hc] at h
    contradiction
  | ok k =>
    rw [hc] at h
    exact ⟨k, rfl, Except.ok.inj h⟩

/-- Lines that are read outside of headers are well formed up to the first cell magic. -/
theorem Reads.not_isMalformed {p last : Phase} {ls : List BodyLine}
    (h : Reads rule kind indent p ls last) (hp : p.Directs ls) {us vs : List Text} {u : Text}
    (hl : ls.map BodyLine.text = us ++ u :: vs)
    (hm : ∀ x ∈ us, classifyLine kind x ≠ .ok .cellMagic) : ¬ IsMalformed kind u := by
  induction us generalizing p ls with
  | nil =>
    cases h with
    | nil => simp at hl
    | @cons _ next _ l ls tags text step tagged rest =>
      obtain ⟨k, hc, hk⟩ := hp.step step
      obtain ⟨rfl, -⟩ := List.cons.inj hl
      rintro (⟨e, he⟩ | ⟨rfl, ht, e, he⟩)
      · rw [hc] at he
        contradiction
      · rw [classifyLine_of_isTagLine ht] at hc
        rw [(Phase.ofKind_cases hk).2.1 (Except.ok.inj hc).symm, lineTags, he] at tagged
        contradiction
  | cons x us ih =>
    cases h with
    | nil => simp at hl
    | @cons _ next _ l ls tags text step tagged rest =>
      obtain ⟨k, hc, hk⟩ := hp.step step
      obtain ⟨rfl, htail⟩ := List.cons.inj hl
      obtain ⟨hx, hm⟩ := List.forall_mem_cons.1 hm
      have hn := (Phase.ofKind_cases hk).2.2 fun he => hx (he ▸ hc)
      exact ih rest (hn.imp_right .inl) htail hm

/-- What is read after the option header of a body. -/
theorem Reads.exists_afterHeader {ls : List BodyLine} {last : Phase}
    (h : Reads rule kind indent (.initial kind) ls last) (hl : last.inHeader = false) :
    ∃ p rest, Reads rule kind indent p rest last ∧ p.Directs rest ∧
      afterHeader kind (ls.map BodyLine.text) = rest.map BodyLine.text := by
  cases kind with
  | plain => exact ⟨.code, ls, h, .inr (.inl rfl), rfl⟩
  | cell =>
    cases ls with
    | nil => exact ⟨.first, [], h, .inr (.inr ⟨rfl, by simp⟩), rfl⟩
    | cons d ls =>
      by_cases hd : Header.isDelimiter d.text
      · cases h with
        | @cons _ next _ _ _ tags text step tagged rest =>
          rw [Phase.initial, Phase.step, if_pos hd] at step
          obtain ⟨-, rfl⟩ := Prod.mk.inj (Except.ok.inj step)
          obtain ⟨hs, e, rest', rfl, hh, he, -, hr, -⟩ := reads_header_iff.1 ⟨rest, hl⟩
          refine ⟨.options, rest', hr, .inl rfl, ?_⟩
          have hh' : ∀ t ∈ hs.map BodyLine.text, !Header.isDelimiter t :=
            List.forall_mem_map.2 fun l hm => by simp [(hh l hm).delimits]
          rw [List.map_cons, afterHeader, if_pos hd, List.map_append,
            List.dropWhile_append_of_pos hh', List.map_cons, List.dropWhile_cons]
          simp [he.delimits]
      · refine ⟨.first, d :: ls, h, .inr (.inr ⟨rfl, ?_⟩), ?_⟩
        · simpa using hd
        · rw [List.map_cons, afterHeader, if_neg hd]

end Lines

theorem Body.map_text_of_classify {rule : HeaderRule} {kind : BlockKind} {indent : Text}
    {ls : List Line} {c : Body} (h : classify rule kind indent ls = .ok c) :
    c.lines.map BodyLine.text = ls.map fun l => Text.stripIndent indent l.content := by
  obtain ⟨hc, last, hr, -⟩ := classify_eq_ok h
  rw [← hc, List.map_map]
  exact List.map_congr_left fun l hl => hr.text_of_mem l hl

/-- A block with a malformed line cannot be read. -/
theorem Block.HasMalformed.classify {rule : HeaderRule} {lines : List Line} {b : Block}
    (h : b.HasMalformed lines) :
    ∃ fault, Body.classify rule b.kind b.indent (b.body lines) = .error fault := by
  cases hc : Body.classify rule b.kind b.indent (b.body lines) with
  | error fault => exact ⟨fault, rfl⟩
  | ok c =>
    obtain ⟨us, u, vs, hl, hm, hu⟩ := h
    obtain ⟨-, last, hr, hlast⟩ := Body.classify_eq_ok hc
    obtain ⟨p, rest, hrest, hp, ha⟩ := hr.exists_afterHeader hlast
    rw [Body.map_text_of_classify hc] at ha
    exact absurd hu (hrest.not_isMalformed hp (ha.symm.trans hl) hm)

/-- What a block has for the formatter is pure code. -/
theorem Block.Offers.pure {rule : HeaderRule} {languages : List Text} {lines : List Line}
    {b : Block} {ts : List Text} (h : b.Offers rule languages lines ts)
    (hi : ∀ c ∈ b.indent, isPadding c) (hb : ∀ l ∈ b.body lines, '\n' ∉ l.content) :
    ∀ t ∈ ts, t ≠ [] ∧ ∃ us, PureLines b.kind us ∧ t = us.flatMap (· ++ ['\n']) := by
  intro t ht
  have hn : ts ≠ [] := List.ne_nil_of_mem ht
  have hw : b.isWrittenIn languages := by
    by_contra hw
    exact hn (h.foreign (by simpa using hw))
  cases hc : Body.classify rule b.kind b.indent (b.body lines) with
  | error fault => exact absurd (h.unreadable fault hc) hn
  | ok c =>
    obtain ⟨ws, -, hm, rfl⟩ := h.readable hw c hc
    obtain ⟨w, hmem, rfl⟩ := List.mem_map.1 ht
    have hof := (hm w).1 hmem
    obtain ⟨-, last, hr, -⟩ := Body.classify_eq_ok hc
    have hsub : ∀ l ∈ w.code, l ∈ c.lines := by
      intro l hl
      rw [← hof.cut]
      simp [Stretch.run, hl]
    have hpure : ∀ l ∈ w.code, (∀ c ∈ l.text.trimStart.head?, c ≠ '!' ∧ c ≠ '%') ∧
        (b.kind = .cell → Tags.isTagLine l.text = false) := fun l hl =>
      hr.pure_of_mem l (hsub l hl) (hof.source l (by simp [Stretch.run, hl]))
    refine ⟨?_, w.code.map BodyLine.text, ⟨?_, ?_, ?_, ?_, fun hk => ?_⟩, ?_⟩
    · obtain ⟨l, ls, hl⟩ := List.exists_cons_of_ne_nil hof.code_ne_nil
      simp [Stretch.text, hl]
    · rw [List.forall_mem_map]
      intro l hl hnl
      rw [hr.text_of_mem l (hsub l hl)] at hnl
      exact hb _ (Body.line_mem_of_classify hc (hsub l hl)) (Text.mem_of_mem_stripIndent hi hnl)
    · obtain ⟨l, hl, hbl⟩ := hof.first
      exact ⟨l.text, by rw [List.head?_map, Option.mem_def.1 hl]; rfl, hbl⟩
    · obtain ⟨l, hl, hbl⟩ := hof.last
      exact ⟨l.text, by rw [List.getLast?_map, Option.mem_def.1 hl]; rfl, hbl⟩
    · exact List.forall_mem_map.2 fun l hl => (hpure l hl).1
    · exact List.forall_mem_map.2 fun l hl => (hpure l hl).2 hk
    · rw [Stretch.text, List.flatMap_map]

/-- A run gives the formatter the sources of the blocks one after the other, in each block up to the
first one that the formatter refuses. They are pure code, and there are none in a block with a
malformed line. -/
theorem formatWith_calls (rule : HeaderRule) (f : Formatter σ) (options : RunOptions) (text : Text)
    (s : σ) (hv : options.format.validate = .ok ()) :
    ∃ r s' tss, formatWith rule f options text s = (.ok r, s') ∧
      List.Forall₂ (Block.Offers rule options.languages text.splitLines) text.blocks tss ∧
      (r.calls, s') = f.feedAll options.format tss s ∧
      (∀ t ∈ r.calls, ∃ p ∈ text.blocks.zip tss, t ∈ p.2) ∧
      ∀ p ∈ text.blocks.zip tss,
        (∀ t ∈ p.2, t ≠ [] ∧ ∃ us, PureLines p.1.kind us ∧ t = us.flatMap (· ++ ['\n'])) ∧
          (p.1.HasMalformed text.splitLines → p.2 = []) := by
  obtain ⟨r, s', hr, -⟩ := formatWith_eq_ok rule f text s hv
  have hcalls := formatWith_feed rule f hr
  have hoffers : List.Forall₂ (Block.Offers rule options.languages text.splitLines) text.blocks
      (text.blocks.map (·.offered rule options.languages text.splitLines)) := by
    rw [List.forall₂_map_right_iff, List.forall₂_same]
    exact fun b _ => b.offers_offered rule options.languages text.splitLines
  obtain ⟨hlen, hzip⟩ := List.forall₂_iff_zip.1 hoffers
  refine ⟨r, s', _, hr, hoffers, hcalls, fun t ht => ?_, fun p hp => ⟨?_, fun hm => ?_⟩⟩
  · have hfed : r.calls = _ := congrArg Prod.fst hcalls
    obtain ⟨ts, hts, hmem⟩ := Formatter.exists_of_mem_feedAll (hfed ▸ ht)
    obtain ⟨b, hb, rfl⟩ := List.mem_map.1 hts
    refine ⟨(b, _), ?_, hmem⟩
    rw [← List.map_prod_left_eq_zip]
    exact List.mem_map_of_mem hb
  · obtain ⟨ho, hw⟩ := Text.wellFormed_of_mem_blocks p.1 (List.of_mem_zip hp).1
    exact (hzip hp).pure ho.indent fun l hl => (hw l hl).unbroken
  · obtain ⟨fault, hf⟩ := hm.classify
    exact (hzip hp).unreadable fault hf

/-- A document with a cell that has a malformed tag list behind its header, with a block that has a
malformed magic, and with a third block that can be read. -/
def mixedBlocks : Text :=
  ("```\x7bcode-cell\x7d py\n---\na: 1\n---\n:tags: [b]\n\nx=1\n\n!ls\ny=(\n%%sh\nz\n```\n" ++
    "~~~py\nw=1\n%%% no\n~~~\n  ```py\n  v=1\n\n   u=1 \n\n  ```\n").toList

/-- The formatter is only asked for the code of the third block. -/
theorem formatWith_calls_mixedBlocks :
    ({} : RunOptions).format.validate = .ok () ∧
      ∃ r s' tss, formatWith Header.rule Formatter.prepared {} mixedBlocks
          [.ok "x = 1\n".toList, .error (.unparsable 1 3 "eof")] = (.ok r, s') ∧
        List.Forall₂ (Block.Offers Header.rule defaultLanguages mixedBlocks.splitLines)
          mixedBlocks.blocks tss ∧
        (r.calls, s') = Formatter.prepared.feedAll {} tss
          [.ok "x = 1\n".toList, .error (.unparsable 1 3 "eof")] ∧
        (∀ t ∈ r.calls, ∃ p ∈ mixedBlocks.blocks.zip tss, t ∈ p.2) ∧
        ∀ p ∈ mixedBlocks.blocks.zip tss,
          (∀ t ∈ p.2, t ≠ [] ∧ ∃ us, PureLines p.1.kind us ∧ t = us.flatMap (· ++ ['\n'])) ∧
            (p.1.HasMalformed mixedBlocks.splitLines → p.2 = []) :=
  ⟨rfl, formatWith_calls Header.rule Formatter.prepared {} mixedBlocks _ rfl⟩

end FencedCode
