import FencedCode.Proofs.Draft
import Mathlib.Algebra.Order.BigOperators.Group.List
import Mathlib.Algebra.Order.Ring.Nat

/-! Lines of some kind, counted before and after a run. If no line of an answer is of the kind and
no artifact comes to be of it, the run leaves at most as many of them as there were, and fewer if an
artifact that was of the kind is so no longer. -/
namespace FencedCode

variable {σ : Type}

/-- An artifact that has a property before the run, and not after it. -/
def Segment.loses (p : Line → Bool) : Segment → Bool
  | .artifact l => p l.line && !p l.draft
  | .source _ _ => false

theorem Layout.countP_weave (p : Line → Bool) (ps : Layout) (ws : List (List Line))
    (hn : ws.length = ps.fences.length) :
    (ps.weave ws).countP p + (ps.fences.map (·.body.countP p)).sum =
      ps.lines.countP p + (ws.map (·.countP p)).sum := by
  induction ps generalizing ws with
  | nil =>
    obtain rfl : ws = [] := by simpa using hn
    rfl
  | cons q ps ih =>
    cases q with
    | line l =>
      have hi := ih ws hn
      rw [weave, lines_line, List.countP_cons, List.countP_cons, fences_line]
      omega
    | fenced g =>
      cases ws with
      | nil => simp at hn
      | cons w ws =>
        have hi := ih ws (by simpa using hn)
        simp only [weave, lines_fenced, fences_fenced, List.map_cons, List.sum_cons,
          List.countP_cons, List.countP_append]
        omega

/-- What the bodies of a document gain in a run is what the document gains. -/
theorem Layout.Proper.countP_rewritten (p : Line → Bool) {ps : Layout} (hp : ps.Proper)
    (rule : HeaderRule) (f : Formatter σ) (options : RunOptions) {text : Text} (s : σ)
    (hs : ps.lines = text.splitLines) :
    (ps.rewritten rule f options text s).countP p +
        ((visits rule f options text.splitLines text.blocks s).map fun v =>
          (v.1.body text.splitLines).countP p).sum =
      text.splitLines.countP p +
        ((visits rule f options text.splitLines text.blocks s).map fun v =>
          (v.1.newLines rule f options text.splitLines v.2).countP p).sum := by
  have hbodies := hp.map_visits rule f options s hs fun _ _ body => body.countP p
  have hn := congrArg List.length hbodies
  rw [List.length_map, List.length_map] at hn
  have hw := countP_weave p ps ((visits rule f options text.splitLines text.blocks s).map
    fun v => v.1.newLines rule f options text.splitLines v.2) (by rwa [List.length_map])
  rw [List.map_map, hs] at hw
  rw [rewritten, hbodies]
  exact hw

section Fewer

variable {p : Line → Bool} (ha : ∀ indent newline t, p (draftLine indent newline t) = false)
  (hd : ∀ l : BodyLine, p l.draft → p l.line)

include ha

theorem Run.countP_draft_le (run : List BodyLine) (indent : Text) (newline : Ending)
    (answer : Text) :
    ((Run.ofLines run).draft indent newline answer).countP p ≤
      (run.map BodyLine.line).countP p := by
  have hz : (answer.lines.map (draftLine indent newline)).countP p = 0 := by
    rw [List.countP_eq_zero, List.forall_mem_map]
    intro t _
    rw [ha]
    exact Bool.false_ne_true
  have hr := congrArg (fun ls => (ls.map BodyLine.line).countP p) (Run.ofLines_append run)
  simp only [List.map_append, List.countP_append] at hr
  simp only [Run.draft, List.countP_append, hz]
  omega

include hd

namespace Block

variable {rule : HeaderRule} {f : Formatter σ} {options : RunOptions} {lines : List Line}
  {b : Block} {s : σ} {c : Body}

theorem countP_draft_add_le {newline : Ending} {segs : List Segment}
    {answers : List (Except FormatError Text)} {ls : List Line}
    (h : b.draft newline segs answers = .ok ls) :
    ls.countP p + segs.countP (Segment.loses p) ≤
      ((segs.flatMap Segment.lines).map BodyLine.line).countP p := by
  induction segs generalizing answers ls with
  | nil =>
    obtain rfl := Except.ok.inj h
    simp
  | cons seg segs ih =>
    rw [List.flatMap_cons, List.map_append, List.countP_append, List.countP_cons]
    cases seg with
    | artifact l =>
      obtain ⟨ms, hm, rfl⟩ := Except.map_eq_ok_iff.1 h
      have hms := ih hm
      -- an artifact of the kind stays so, or is the one that is lost
      have hl : (if p l.draft then 1 else 0) + (if p l.line && !p l.draft then 1 else 0) ≤
          if p l.line then 1 else 0 := by
        have hdl := hd l
        cases hp : p l.line <;> cases hq : p l.draft <;> simp_all
      rw [List.countP_cons, Segment.lines, List.map_singleton, List.countP_singleton,
        Segment.loses]
      omega
    | source first run =>
      obtain ⟨ks, ms, answers', hm, rfl, hk⟩ := exists_of_draft_source h
      have hms := ih hm
      have hks : ks.countP p ≤ (run.map BodyLine.line).countP p := by
        obtain rfl | ⟨answer, rfl⟩ := hk
        · exact Nat.le_refl _
        · exact Run.countP_draft_le ha run b.indent newline answer
      rw [List.countP_append, Segment.lines, Segment.loses]
      simp only [Bool.false_eq_true, if_false]
      omega

theorem countP_draftBody_add_le
    (hc : Body.classify rule b.kind b.indent (b.body lines) = .ok c)
    {answers : List (Except FormatError Text)} {ls : List Line}
    (h : b.draftBody rule lines answers = .ok ls) :
    ls.countP p + (segments c.lines).countP (Segment.loses p) ≤ (b.body lines).countP p := by
  rw [draftBody, hc] at h
  have hle := countP_draft_add_le ha hd h
  rwa [segments, flatMap_lines_segmentsFrom, (Body.classify_eq_ok hc).1] at hle

theorem countP_newLines_le :
    (b.newLines rule f options lines s).countP p ≤ (b.body lines).countP p := by
  rw [newLines]
  split
  · split
    · next ls hls =>
      cases hc : Body.classify rule b.kind b.indent (b.body lines) with
      | error fault =>
        rw [draftBody, hc] at hls
        contradiction
      | ok c => exact Nat.le_of_add_right_le (countP_draftBody_add_le ha hd hc hls)
    · exact Nat.le_refl _
  · exact Nat.le_refl _

theorem countP_newLines_lt (hw : b.isWrittenIn options.languages)
    (hf : ¬ b.Fails rule f options.format lines s)
    (hc : Body.classify rule b.kind b.indent (b.body lines) = .ok c) {l : BodyLine}
    (hl : l ∈ c.lines) (hk : l.kind.isArtifact) (hp : p l.line) (hq : p l.draft = false) :
    (b.newLines rule f options lines s).countP p < (b.body lines).countP p := by
  obtain ⟨ls, hls⟩ := (not_fails_iff_draftBody rule f lines b s options.format).1 hf
  have hle := countP_draftBody_add_le ha hd hc hls
  have hpos : 0 < (segments c.lines).countP (Segment.loses p) := by
    rw [List.countP_pos_iff]
    refine ⟨_, (artifact_mem_segmentsFrom_iff 0).2 ⟨hl, hk⟩, ?_⟩
    rw [Segment.loses, hp, hq]
    rfl
  rw [newLines, if_pos hw, hls]
  simp only
  omega

end Block

/-- A run leaves fewer lines of the kind if an artifact that it writes is of the kind no longer. -/
theorem Layout.Proper.countP_rewritten_lt {ps : Layout} (hp : ps.Proper) {rule : HeaderRule}
    {f : Formatter σ} {options : RunOptions} {text : Text} {s : σ}
    (hs : ps.lines = text.splitLines) {v : Block × σ}
    (hv : v ∈ visits rule f options text.splitLines text.blocks s)
    (hw : v.1.isWrittenIn options.languages)
    (hf : ¬ v.1.Fails rule f options.format text.splitLines v.2) {c : Body}
    (hc : Body.classify rule v.1.kind v.1.indent (v.1.body text.splitLines) = .ok c)
    {l : BodyLine} (hl : l ∈ c.lines) (hk : l.kind.isArtifact) (hb : p l.line)
    (hq : p l.draft = false) :
    (ps.rewritten rule f options text s).countP p < text.splitLines.countP p := by
  have hcount := hp.countP_rewritten p rule f options s hs
  have hle : ∀ v ∈ visits rule f options text.splitLines text.blocks s,
      (v.1.newLines rule f options text.splitLines v.2).countP p ≤
        (v.1.body text.splitLines).countP p :=
    fun v _ => Block.countP_newLines_le ha hd
  have hlt := Block.countP_newLines_lt ha hd hw hf hc hl hk hb hq
  have hsum := List.sum_lt_sum _ _ hle ⟨v, hv, hlt⟩
  omega

end Fewer

end FencedCode
