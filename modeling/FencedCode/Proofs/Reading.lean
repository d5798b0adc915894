import FencedCode.Document.Segment
import FencedCode.Proofs.Results
import Mathlib.Data.List.Basic
import Mathlib.Data.List.TakeWhile

/-! How the lines of a body are read one after the other, and how the lines that are read make up
segments. -/
namespace FencedCode

/-- The line as it stands in the document. -/
def BodyLine.line (l : BodyLine) : Line := ⟨l.raw, l.ending⟩

def Phase.inHeader : Phase → Bool
  | .header _ => true
  | _ => false

/-- A stretch of lines that is read without a fault, between the phases before and after it. -/
inductive Reads (rule : HeaderRule) (kind : BlockKind) (indent : Text) :
    Phase → List BodyLine → Phase → Prop
  | nil {phase : Phase} : Reads rule kind indent phase [] phase
  | cons {phase next last : Phase} {l : BodyLine} {ls : List BodyLine} {tags : Option (List Text)}
      (text : l.text = Text.stripIndent indent l.raw)
      (step : phase.step rule kind l.text = .ok (l.kind, next))
      (tagged : lineTags l.kind l.text = .ok tags)
      (rest : Reads rule kind indent next ls last) :
      Reads rule kind indent phase (l :: ls) last

variable {rule : HeaderRule} {kind : BlockKind} {indent : Text}

namespace Body

theorem classifyFrom_nil (phase : Phase) :
    classifyFrom rule kind indent phase [] =
      if phase.inHeader then .error (.options .unterminated) else .ok ⟨[], none⟩ := by
  cases phase <;> rfl

theorem classifyFrom_cons_eq_ok_iff {phase : Phase} {l : Line} {ls : List Line} {b : Body} :
    classifyFrom rule kind indent phase (l :: ls) = .ok b ↔
      ∃ k next tags rest, phase.step rule kind (Text.stripIndent indent l.content) = .ok (k, next) ∧
        lineTags k (Text.stripIndent indent l.content) = .ok tags ∧
        classifyFrom rule kind indent next ls = .ok rest ∧
        b = ⟨⟨k, l.content, Text.stripIndent indent l.content, l.ending⟩ :: rest.lines,
          unionTags tags rest.tags⟩ := by
  simp only [classifyFrom, Except.bind_eq_ok_iff, Except.ok.injEq]
  constructor
  · rintro ⟨⟨k, next⟩, hs, tags, ht, rest, hr, rfl⟩
    exact ⟨k, next, tags, rest, hs, ht, hr, rfl⟩
  · rintro ⟨k, next, tags, rest, hs, ht, hr, rfl⟩
    exact ⟨⟨k, next⟩, hs, tags, ht, rest, hr, rfl⟩

/-- Classifying a body is reading all of its lines, without ending in a header. -/
theorem exists_classifyFrom_iff {phase : Phase} {ls : List Line} {bs : List BodyLine} :
    (∃ tags, classifyFrom rule kind indent phase ls = .ok ⟨bs, tags⟩) ↔
      bs.map BodyLine.line = ls ∧
        ∃ last, Reads rule kind indent phase bs last ∧ last.inHeader = false := by
  induction ls generalizing phase bs with
  | nil =>
    simp only [classifyFrom_nil, List.map_eq_nil_iff]
    constructor
    · rintro ⟨tags, h⟩
      by_cases hp : phase.inHeader
      · simp [hp] at h
      · simp only [hp, Bool.false_eq_true, if_false, Except.ok.injEq, Body.mk.injEq] at h
        obtain ⟨rfl, -⟩ := h
        exact ⟨rfl, phase, .nil, by simpa using hp⟩
    · rintro ⟨rfl, last, h, hl⟩
      cases h
      exact ⟨none, by simp [hl]⟩
  | cons l ls ih =>
    constructor
    · rintro ⟨tags, h⟩
      obtain ⟨k, next, tags', rest, hs, ht, hr, he⟩ := classifyFrom_cons_eq_ok_iff.1 h
      obtain ⟨hm, last, hl, hh⟩ := ih.1 ⟨rest.tags, hr⟩
      obtain ⟨rfl, -⟩ := Body.mk.inj he
      exact ⟨by rw [List.map_cons, hm]; rfl, last, .cons rfl hs ht hl, hh⟩
    · rintro ⟨hm, last, hl, hh⟩
      cases hl with
      | nil => simp at hm
      | @cons _ next _ b bs tags text step tagged rest =>
        rw [List.map_cons, List.cons.injEq] at hm
        obtain ⟨rfl, hm⟩ := hm
        obtain ⟨tags', hr⟩ := ih.2 ⟨hm, last, rest, hh⟩
        refine ⟨unionTags tags tags', classifyFrom_cons_eq_ok_iff.2 ?_⟩
        refine ⟨b.kind, next, tags, _, text ▸ step, text ▸ tagged, hr, ?_⟩
        simp only [BodyLine.line, ← text]

theorem classify_eq_ok {ls : List Line} {c : Body} (h : classify rule kind indent ls = .ok c) :
    c.lines.map BodyLine.line = ls ∧
      ∃ last, Reads rule kind indent (.initial kind) c.lines last ∧ last.inHeader = false :=
  exists_classifyFrom_iff.1 ⟨c.tags, h⟩

theorem line_mem_of_classify {ls : List Line} {c : Body} (h : classify rule kind indent ls = .ok c)
    {l : BodyLine} (hl : l ∈ c.lines) : l.line ∈ ls := by
  rw [← (classify_eq_ok h).1]
  exact List.mem_map_of_mem hl

end Body

namespace Phase

/-- Outside of headers a line is what its first characters make it. -/
theorem step_directive {p : Phase} {t : Text}
    (hp : p = .options ∨ p = .code ∨ (p = .first ∧ Header.isDelimiter t = false)) :
    p.step rule kind t =
      match classifyLine kind t with
      | .ok k => .ok (ofKind (p != .code) k)
      | .error e => .error (.magic e) := by
  rcases hp with rfl | rfl | ⟨rfl, hd⟩
  · rfl
  · rfl
  · rw [step]
    simp only [hd]
    rfl

/-- What a line can be, by the phase it is met in. -/
theorem step_cases (rule : HeaderRule) (kind : BlockKind) (p : Phase) (t : Text) :
    ((p = .options ∨ p = .code ∨ (p = .first ∧ Header.isDelimiter t = false)) ∧
        p.step rule kind t = match classifyLine kind t with
          | .ok k => .ok (ofKind (p != .code) k)
          | .error e => .error (.magic e)) ∨
      (p = .frozen ∧ p.step rule kind t = .ok (.frozen, .frozen)) ∨
      (((p = .first ∧ Header.isDelimiter t) ∨ p.inHeader) ∧
        ((∃ next, p.step rule kind t = .ok (.cellOption, next)) ∨
          ∃ e, p.step rule kind t = .error (.options e))) := by
  cases p with
  | first =>
    by_cases hd : Header.isDelimiter t
    · exact .inr (.inr ⟨.inl ⟨rfl, hd⟩, .inl ⟨.header [], if_pos hd⟩⟩)
    · have hp : Phase.first = .first ∧ Header.isDelimiter t = false := ⟨rfl, by simpa using hd⟩
      exact .inl ⟨.inr (.inr hp), step_directive (.inr (.inr hp))⟩
  | header lines =>
    refine .inr (.inr ⟨.inr rfl, ?_⟩)
    rw [step]
    split
    · split
      · exact .inl ⟨_, rfl⟩
      · exact .inr ⟨_, rfl⟩
    · exact .inl ⟨_, rfl⟩
  | options => exact .inl ⟨.inl rfl, rfl⟩
  | code => exact .inl ⟨.inr (.inl rfl), rfl⟩
  | frozen => exact .inr (.inl ⟨rfl, rfl⟩)

end Phase

namespace Reads

theorem append {p q r : Phase} {ls ms : List BodyLine} (h : Reads rule kind indent p ls q)
    (h' : Reads rule kind indent q ms r) : Reads rule kind indent p (ls ++ ms) r := by
  induction h with
  | nil => exact h'
  | cons text step tagged _ ih => exact .cons text step tagged (ih h')

theorem split {p r : Phase} {ls ms : List BodyLine} (h : Reads rule kind indent p (ls ++ ms) r) :
    ∃ q, Reads rule kind indent p ls q ∧ Reads rule kind indent q ms r := by
  induction ls generalizing p with
  | nil => exact ⟨p, .nil, h⟩
  | cons l ls ih =>
    cases h with
    | cons text step tagged rest =>
      obtain ⟨q, hl, hm⟩ := ih rest
      exact ⟨q, .cons text step tagged hl, hm⟩

theorem text_of_mem {p q : Phase} {ls : List BodyLine} (h : Reads rule kind indent p ls q) :
    ∀ l ∈ ls, l.text = Text.stripIndent indent l.raw := by
  induction h with
  | nil => simp
  | cons text _ _ _ ih => exact List.forall_mem_cons.2 ⟨text, ih⟩

end Reads

namespace Segment

def lines : Segment → List BodyLine
  | .artifact l => [l]
  | .source _ run => run

/-- The segment without its place in the body. -/
def unplaced : Segment → Segment
  | .artifact l => .artifact l
  | .source _ run => .source 0 run

end Segment

/-- Segments that a body can be cut into: runs of source are not empty, and two of them have an
artifact in between. -/
def WellCut : List Segment → Prop
  | [] => True
  | .artifact l :: segs => l.kind.isArtifact ∧ WellCut segs
  | .source _ run :: segs =>
    run ≠ [] ∧ (∀ l ∈ run, l.kind.isArtifact = false) ∧
      (∀ l ∈ (segs.flatMap Segment.lines).head?, l.kind.isArtifact) ∧ WellCut segs

theorem WellCut.cons {seg : Segment} {segs : List Segment} (h : WellCut (seg :: segs)) :
    WellCut [seg] ∧ WellCut segs := by
  cases seg with
  | artifact l => exact ⟨⟨h.1, trivial⟩, h.2⟩
  | source first run => exact ⟨⟨h.1, h.2.1, by simp, trivial⟩, h.2.2.2⟩

theorem segmentsFrom_artifact {l : BodyLine} (h : l.kind.isArtifact) (i : Nat)
    (ls : List BodyLine) : segmentsFrom i (l :: ls) = .artifact l :: segmentsFrom (i + 1) ls := by
  rw [segmentsFrom, if_pos h]

theorem segmentsFrom_artifacts {hs : List BodyLine} (h : ∀ l ∈ hs, l.kind.isArtifact) (i : Nat)
    (ls : List BodyLine) :
    segmentsFrom i (hs ++ ls) = hs.map .artifact ++ segmentsFrom (i + hs.length) ls := by
  induction hs generalizing i with
  | nil => rfl
  | cons l hs ih =>
    obtain ⟨hl, h⟩ := List.forall_mem_cons.1 h
    rw [List.cons_append, segmentsFrom_artifact hl, ih h, List.length_cons, Nat.add_right_comm,
      Nat.add_assoc]
    rfl

/-- The source lines up to the next artifact make up one segment. -/
theorem segmentsFrom_run {run tail : List BodyLine} (hr : run ≠ [])
    (hs : ∀ l ∈ run, l.kind.isArtifact = false) (ht : ∀ l ∈ tail.head?, l.kind.isArtifact)
    (i : Nat) :
    segmentsFrom i (run ++ tail) = .source i run :: segmentsFrom (i + run.length) tail := by
  induction run generalizing i with
  | nil => exact absurd rfl hr
  | cons l run ih =>
    obtain ⟨hl, hs⟩ := List.forall_mem_cons.1 hs
    rw [List.cons_append, segmentsFrom, if_neg (by simp [hl])]
    cases run with
    | nil =>
      cases tail with
      | nil => rfl
      | cons a tail =>
        rw [List.nil_append, List.length_singleton, segmentsFrom_artifact (ht a rfl)]
    | cons m run =>
      rw [ih (by simp) hs]
      simp only [List.length_cons]
      rw [Nat.add_right_comm i 1, Nat.add_assoc]

/-- Induction over the lines of a body: artifacts come one by one, and source lines as many as
there are before the next artifact. -/
theorem bodyInduction {P : List BodyLine → Prop} (nil : P [])
    (artifact : ∀ l ls, l.kind.isArtifact → P ls → P (l :: ls))
    (run : ∀ run tail, run ≠ [] → (∀ l ∈ run, l.kind.isArtifact = false) →
      (∀ l ∈ tail.head?, l.kind.isArtifact) → P tail → P (run ++ tail))
    (ls : List BodyLine) : P ls := by
  induction hn : ls.length using Nat.strongRecOn generalizing ls with
  | ind n ih =>
    cases ls with
    | nil => exact nil
    | cons l ls =>
      by_cases hl : l.kind.isArtifact
      · exact artifact l ls hl (ih ls.length (by rw [← hn]; simp) ls rfl)
      · have hs := (l :: ls).takeWhile_append_dropWhile (p := fun l => !l.kind.isArtifact)
        have ht : (l :: ls).takeWhile (fun l => !l.kind.isArtifact) ≠ [] := by simp [hl]
        rw [← hs]
        apply run
        · exact ht
        · intro m hm
          simpa using List.mem_takeWhile_imp hm
        · intro m hm
          have hd := List.head?_dropWhile_not (fun l => !l.kind.isArtifact) (l :: ls)
          rw [Option.mem_def.1 hm] at hd
          simpa using hd
        · refine ih _ ?_ _ rfl
          have hl := congrArg List.length hs
          have hp := List.length_pos_of_ne_nil ht
          rw [List.length_append] at hl
          omega

theorem flatMap_lines_segmentsFrom (i : Nat) (ls : List BodyLine) :
    (segmentsFrom i ls).flatMap Segment.lines = ls := by
  induction ls using bodyInduction generalizing i with
  | nil => rfl
  | artifact l ls hl ih =>
    rw [segmentsFrom_artifact hl, List.flatMap_cons, ih]
    rfl
  | run run tail hr hs ht ih =>
    rw [segmentsFrom_run hr hs ht, List.flatMap_cons, ih]
    rfl

theorem artifact_mem_segmentsFrom_iff {l : BodyLine} {ls : List BodyLine} (i : Nat) :
    .artifact l ∈ segmentsFrom i ls ↔ l ∈ ls ∧ l.kind.isArtifact := by
  induction ls using bodyInduction generalizing i with
  | nil => simp [segmentsFrom]
  | artifact m ls hm ih =>
    have hl : l = m → l.kind.isArtifact := fun h => h ▸ hm
    rw [segmentsFrom_artifact hm, List.mem_cons, List.mem_cons, ih, or_and_right,
      and_iff_left_of_imp hl, Segment.artifact.injEq]
  | run run tail hr hs ht ih =>
    rw [segmentsFrom_run hr hs ht, List.mem_cons, List.mem_append, ih]
    simp only [reduceCtorEq, false_or, or_and_right, iff_or_self]
    rintro ⟨hl, ha⟩
    rw [hs l hl] at ha
    contradiction

theorem wellCut_segmentsFrom (i : Nat) (ls : List BodyLine) : WellCut (segmentsFrom i ls) := by
  induction ls using bodyInduction generalizing i with
  | nil => trivial
  | artifact l ls hl ih =>
    rw [segmentsFrom_artifact hl]
    exact ⟨hl, ih (i + 1)⟩
  | run run tail hr hs ht ih =>
    rw [segmentsFrom_run hr hs ht]
    exact ⟨hr, hs, (flatMap_lines_segmentsFrom _ tail).symm ▸ ht, ih _⟩

/-- Lines that make up well-cut segments are cut into these again. -/
theorem map_unplaced_segmentsFrom {segs : List Segment} (h : WellCut segs) (i : Nat) :
    (segmentsFrom i (segs.flatMap Segment.lines)).map Segment.unplaced =
      segs.map Segment.unplaced := by
  induction segs generalizing i with
  | nil => rfl
  | cons seg segs ih =>
    cases seg with
    | artifact l =>
      rw [List.flatMap_cons, Segment.lines, List.singleton_append, segmentsFrom_artifact h.1,
        List.map_cons, List.map_cons, ih h.2]
    | source first run =>
      obtain ⟨hr, hs, ht, h⟩ := h
      rw [List.flatMap_cons, Segment.lines, segmentsFrom_run hr hs ht, List.map_cons,
        List.map_cons, ih h]
      rfl

end FencedCode
