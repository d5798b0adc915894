import FencedCode.Proofs.Scan
import Mathlib.Algebra.GroupWithZero.Nat

/-! The scan as a walk from line to line. Outside of fences a walk looks for an opener, inside of
one it looks for its close, and from the end of the document it goes back to the line after a fence
that nothing closed. It ends nevertheless, and for a fence of the same shape it goes to the end once
only. -/
namespace FencedCode

/-- What a walk looks for: an opener, or the close of the fence that a line opened. -/
inductive Search
  | opener
  | close (line : Nat) (o : Opener)

/-- A walk at the line that it reads next, with the fences that it knows to be unclosed and with
what it found. -/
structure Walk where
  index : Nat := 0
  search : Search := .opener
  known : Unclosed := []
  found : List Finding := []

namespace Walk

/-- Reads a line. Beyond the last line a walk that is still inside of a fence goes back. -/
def step (ls : List Line) (w : Walk) : Option Walk :=
  match ls[w.index]?, w.search with
  | none, .opener => none
  | none, .close i o => some ⟨i + 1, .opener, w.known.record o, w.found ++ [.unclosed i o]⟩
  | some l, .opener =>
    match Opener.ofContent? l.content with
    | none => some { w with index := w.index + 1 }
    | some o =>
      if w.known.covers o then some { w with index := w.index + 1 }
      else some { w with index := w.index + 1, search := .close w.index o }
  | some l, .close i o =>
    match o.closes? l.content with
    | none => some { w with index := w.index + 1 }
    | some trailing =>
      some ⟨w.index + 1, .opener, w.known, w.found ++ [.block ⟨i, w.index, o, trailing⟩]⟩

/-- So many steps lead from one state of a walk to another one. -/
inductive Steps (ls : List Line) : Nat → Walk → Walk → Prop
  | refl (w : Walk) : Steps ls 0 w w
  | cons {n : Nat} {w v u : Walk} : w.step ls = some v → Steps ls n v u → Steps ls (n + 1) w u

/-- A walk has come to the end of the document in search of the close of a fence. -/
def RanOff (ls : List Line) (w : Walk) (line : Nat) (o : Opener) : Prop :=
  w.search = .close line o ∧ ls.length ≤ w.index

/-- The line from which the walk will not go back any more: the one that it reads next, or the one
that opened the fence. -/
def start (w : Walk) : Nat :=
  match w.search with
  | .opener => w.index
  | .close i _ => i

section Run

variable {ls : List Line} {w v u : Walk} {m n : Nat}

theorem Steps.trans (h : Steps ls m w v) (h' : Steps ls n v u) : Steps ls (m + n) w u := by
  induction h with
  | refl w => rwa [Nat.zero_add]
  | cons hs _ ih =>
    rw [Nat.add_right_comm]
    exact .cons hs (ih h')

/-- A walk that goes on for longer comes by every state of a shorter one. -/
theorem Steps.exists_rest (h : Steps ls m w v) (h' : Steps ls n w u) (hmn : m ≤ n) :
    ∃ k, n = m + k ∧ Steps ls k v u := by
  induction h generalizing n with
  | refl w => exact ⟨n, (Nat.zero_add n).symm, h'⟩
  | cons hs _ ih =>
    cases h' with
    | refl => omega
    | cons hs' h' =>
      obtain rfl := Option.some.inj (hs.symm.trans hs')
      obtain ⟨k, rfl, hk⟩ := ih h' (by omega)
      exact ⟨k, by omega, hk⟩

/-- What a step does: it goes on to the next line, begins the search for a close, finds the close,
or goes back from the end. -/
theorem step_cases (h : w.step ls = some v) :
    v = { w with index := w.index + 1 } ∨
    (∃ o, w.search = .opener ∧ w.known.covers o = false ∧
      v = { w with index := w.index + 1, search := .close w.index o }) ∨
    (∃ i o trailing, w.search = .close i o ∧
      v = ⟨w.index + 1, .opener, w.known, w.found ++ [.block ⟨i, w.index, o, trailing⟩]⟩) ∨
    ∃ i o, w.RanOff ls i o ∧
      v = ⟨i + 1, .opener, w.known.record o, w.found ++ [.unclosed i o]⟩ := by
  rw [step] at h
  split at h
  · contradiction
  · next i o hl hs =>
    exact .inr (.inr (.inr ⟨i, o, ⟨hs, List.getElem?_eq_none_iff.1 hl⟩, (Option.some.inj h).symm⟩))
  · next l hl hs =>
    split at h
    · exact .inl (Option.some.inj h).symm
    · next o ho =>
      split at h
      · exact .inl (Option.some.inj h).symm
      · next hk => exact .inr (.inl ⟨o, hs, by simpa using hk, (Option.some.inj h).symm⟩)
  · next l i o hl hs =>
    split at h
    · exact .inl (Option.some.inj h).symm
    · next trailing hc =>
      exact .inr (.inr (.inl ⟨i, o, trailing, hs, (Option.some.inj h).symm⟩))

theorem RanOff.step_eq {i : Nat} {o : Opener} (h : w.RanOff ls i o) :
    w.step ls = some ⟨i + 1, .opener, w.known.record o, w.found ++ [.unclosed i o]⟩ := by
  have hl : ls[w.index]? = none := List.getElem?_eq_none_iff.2 h.2
  rw [step, hl, h.1]

theorem found_subset_of_step (h : w.step ls = some v) : w.found ⊆ v.found := by
  rcases step_cases h with rfl | ⟨o, -, -, rfl⟩ | ⟨i, o, trailing, -, rfl⟩ | ⟨i, o, -, rfl⟩
  · exact List.Subset.refl _
  · exact List.Subset.refl _
  · exact List.subset_append_left ..
  · exact List.subset_append_left ..

theorem Steps.found_subset (h : Steps ls n w v) : w.found ⊆ v.found := by
  induction h with
  | refl w => exact List.Subset.refl _
  | cons hs _ ih => exact List.Subset.trans (found_subset_of_step hs) ih

end Run

end Walk

/-- The openers have the same indentation and marker, so that a run of markers which is long enough
closes both of their fences. -/
def Opener.Alike (o p : Opener) : Prop :=
  o.indent = p.indent ∧ o.fence.marker = p.fence.marker

theorem Unclosed.covers_of_covers_record {u : Unclosed} {o p : Opener}
    (h : u.covers p ∨ (o.Alike p ∧ o.fence.length ≤ p.fence.length)) : (u.record o).covers p := by
  rw [covers, shortest?_record]
  by_cases hk : (p.indent, p.fence.marker) = (o.indent, o.fence.marker)
  · have he : u.shortest? p = u.shortest? o := by rw [shortest?, shortest?, hk]
    rw [if_pos hk]
    rw [covers, he] at h
    cases hs : u.shortest? o with
    | none =>
      simp only [hs, Bool.false_eq_true, false_or] at h
      simpa using h.2
    | some n =>
      simp only [hs, decide_eq_true_eq] at h ⊢
      rcases h with h | h
      · exact Nat.le_trans (Nat.min_le_left ..) h
      · exact Nat.le_trans (Nat.min_le_right ..) h.2
  · rw [if_neg hk]
    refine h.resolve_right fun ha => hk ?_
    rw [ha.1.1, ha.1.2]

namespace Walk

/-- What holds at every state of a walk. The fences that ran off the end were opened before the
line from which the walk will not go back. They are known, with all that are not shorter, and the
fence whose close is searched for is not. -/
structure Sound (w : Walk) : Prop where
  start_le : w.start ≤ w.index
  before : ∀ i o, .unclosed i o ∈ w.found → i < w.start
  recorded : ∀ i o, .unclosed i o ∈ w.found → ∀ p, o.Alike p →
    o.fence.length ≤ p.fence.length → w.known.covers p
  fresh : ∀ i o, w.search = .close i o → w.known.covers o = false

theorem sound_init : Sound {} where
  start_le := Nat.le_refl 0
  before := by simp
  recorded := by simp
  fresh := by simp

theorem Sound.step {ls : List Line} {w v : Walk} (hw : w.Sound) (h : w.step ls = some v) :
    v.Sound := by
  obtain ⟨hle, hb, hr, hf⟩ := hw
  rcases step_cases h with rfl | ⟨o, hs, hk, rfl⟩ | ⟨i, o, trailing, hs, rfl⟩ | ⟨i, o, ⟨hs, -⟩, rfl⟩
  · have hst : w.start ≤ start { w with index := w.index + 1 } ∧
        start { w with index := w.index + 1 } ≤ w.index + 1 := by
      cases hs : w.search with
      | opener => simp [start, hs]
      | close i o =>
        simp only [start, hs] at hle ⊢
        omega
    exact ⟨hst.2, fun i o hi => Nat.lt_of_lt_of_le (hb i o hi) hst.1, hr, hf⟩
  · simp only [start, hs] at hb
    refine ⟨Nat.le_succ _, hb, hr, ?_⟩
    rintro i p ⟨⟩
    exact hk
  · simp only [start, hs] at hle hb
    refine ⟨Nat.le_refl _, fun j p hj => ?_, fun j p hj => ?_, by simp⟩
    · have := hb j p (by simpa using hj)
      simp only [start]
      omega
    · exact hr j p (by simpa using hj)
  · simp only [start, hs] at hb
    refine ⟨Nat.le_refl _, fun j p hj => ?_, fun j p hj q hq hl => ?_, by simp⟩
    · simp only [start]
      rcases List.mem_append.1 hj with hj | hj
      · have := hb j p hj
        omega
      · obtain ⟨rfl, rfl⟩ : j = i ∧ p = o := by simpa using hj
        exact Nat.lt_succ_self j
    · -- An earlier fence stays known, and this one is known from now on.
      apply Unclosed.covers_of_covers_record
      rcases List.mem_append.1 hj with hj | hj
      · exact .inl (hr j p hj q hq hl)
      · obtain ⟨-, rfl⟩ : j = i ∧ p = o := by simpa using hj
        exact .inr ⟨hq, hl⟩

theorem Sound.steps {ls : List Line} {w v : Walk} {n : Nat} (hw : w.Sound) (h : Steps ls n w v) :
    v.Sound := by
  induction h with
  | refl w => exact hw
  | cons hs _ ih => exact ih (hw.step hs)

/-- A fence that runs off the end was opened after all that did before it, and it is shorter than
those of its shape. -/
theorem Sound.unclosed_lt {w : Walk} (hw : w.Sound) {i j : Nat} {o p : Opener}
    (hs : w.search = .close j p) (h : .unclosed i o ∈ w.found) :
    i < j ∧ (o.Alike p → p.fence.length < o.fence.length) := by
  have hb := hw.before i o h
  simp only [start, hs] at hb
  refine ⟨hb, fun ha => ?_⟩
  by_contra hl
  have hk := hw.recorded i o h p ha (Nat.le_of_not_lt hl)
  rw [hw.fresh j p hs] at hk
  contradiction

/-- The fences of a walk that run off the end one after the other. -/
theorem RanOff.lt {ls : List Line} {w v : Walk} {m n i j : Nat} {o p : Opener}
    (hw : Steps ls m {} w) (hv : Steps ls n {} v) (hmn : m < n) (ho : w.RanOff ls i o)
    (hp : v.RanOff ls j p) : i < j ∧ (o.Alike p → p.fence.length < o.fence.length) := by
  have hnext := hw.trans (.cons ho.step_eq (.refl _))
  obtain ⟨k, -, hk⟩ := hnext.exists_rest hv hmn
  have hm : Finding.unclosed i o ∈ v.found := hk.found_subset (by simp)
  exact (sound_init.steps hv).unclosed_lt hp.1 hm

end Walk

/-- The lines that a walk through `n` lines reads again because of a finding, with the step back. -/
def Finding.detour (n : Nat) : Finding → Nat
  | .block _ => 0
  | .unclosed i _ => n - i

namespace Walk

section End

variable {ls rest : List Line} {i k : Nat} {known : Unclosed} {found : List Finding} {o : Opener}

theorem getElem?_of_drop_eq_cons {l : Line} (h : ls.drop i = l :: rest) : ls[i]? = some l := by
  rw [← List.head?_drop, h, List.head?_cons]

theorem drop_succ_of_drop_eq_cons {l : Line} (h : ls.drop i = l :: rest) :
    ls.drop (i + 1) = rest := by
  rw [← List.drop_drop, h, List.drop_succ_cons, List.drop_zero]

theorem step_open {l : Line} (hd : ls.drop i = l :: rest)
    (ho : Opener.ofContent? l.content = some o) (hk : ¬ known.covers o) :
    step ls ⟨i, .opener, known, found⟩ = some ⟨i + 1, .close i o, known, found⟩ := by
  simp only [step, getElem?_of_drop_eq_cons hd, ho, if_neg hk]

/-- The search for a close that is not there. -/
theorem steps_of_findClose?_none (hd : ls.drop i = rest) (h : o.findClose? rest = none) :
    Steps ls (rest.length + 1) ⟨i, .close k o, known, found⟩
      ⟨k + 1, .opener, known.record o, found ++ [.unclosed k o]⟩ := by
  induction rest generalizing i with
  | nil =>
    refine .cons (RanOff.step_eq ⟨rfl, ?_⟩) (.refl _)
    exact List.drop_eq_nil_iff.1 hd
  | cons l rest ih =>
    rw [Opener.findClose?] at h
    cases hc : o.closes? l.content with
    | some w =>
      rw [hc] at h
      contradiction
    | none =>
      rw [hc] at h
      refine .cons ?_ (ih (drop_succ_of_drop_eq_cons hd) (Option.map_eq_none_iff.1 h))
      simp only [step, getElem?_of_drop_eq_cons hd, hc]

/-- The search for a close that stands behind `n` lines. -/
theorem steps_of_findClose?_some {n : Nat} {trailing : Text} (hd : ls.drop i = rest)
    (h : o.findClose? rest = some (n, trailing)) :
    Steps ls (n + 1) ⟨i, .close k o, known, found⟩
      ⟨i + n + 1, .opener, known, found ++ [.block ⟨k, i + n, o, trailing⟩]⟩ := by
  induction rest generalizing i n with
  | nil => contradiction
  | cons l rest ih =>
    rw [Opener.findClose?] at h
    cases hc : o.closes? l.content with
    | some w =>
      rw [hc] at h
      obtain ⟨rfl, rfl⟩ : 0 = n ∧ w = trailing := by simpa using h
      refine .cons ?_ (.refl _)
      simp only [step, getElem?_of_drop_eq_cons hd, hc, Nat.add_zero]
    | none =>
      rw [hc] at h
      obtain ⟨⟨m, w⟩, hm, he⟩ := Option.map_eq_some_iff.1 h
      obtain ⟨rfl, rfl⟩ : m + 1 = n ∧ w = trailing := by simpa using he
      have hs := ih (drop_succ_of_drop_eq_cons hd) hm
      rw [Nat.add_right_comm i 1 m] at hs
      refine .cons ?_ hs
      simp only [step, getElem?_of_drop_eq_cons hd, hc]

/-- A walk comes from a line to the end with what the scan finds from this line on. -/
theorem exists_steps (known : Unclosed) (i : Nat) (rest : List Line) (found : List Finding)
    (hd : ls.drop i = rest) (hi : i ≤ ls.length) :
    ∃ known', Steps ls
      (rest.length + ((scanFrom known i rest).map (Finding.detour ls.length)).sum)
      ⟨i, .opener, known, found⟩ ⟨ls.length, .opener, known', found ++ scanFrom known i rest⟩ := by
  have hlen : ls.length = i + rest.length := by
    rw [← hd, List.length_drop]
    omega
  fun_induction scanFrom known i rest generalizing found with
  | case1 known i =>
    obtain rfl : ls.length = i := hlen
    exact ⟨known, by simpa using .refl _⟩
  | case2 known i l rest ho ih =>
    rw [List.length_cons] at hlen
    obtain ⟨known', hs⟩ := ih found (drop_succ_of_drop_eq_cons hd) (by omega) (by omega)
    refine ⟨known', ?_⟩
    rw [List.length_cons, Nat.add_right_comm]
    refine .cons ?_ hs
    simp only [step, getElem?_of_drop_eq_cons hd, ho]
  | case3 known i l rest o ho hk ih =>
    rw [List.length_cons] at hlen
    obtain ⟨known', hs⟩ := ih found (drop_succ_of_drop_eq_cons hd) (by omega) (by omega)
    refine ⟨known', ?_⟩
    rw [List.length_cons, Nat.add_right_comm]
    refine .cons ?_ hs
    simp only [step, getElem?_of_drop_eq_cons hd, ho, if_pos hk]
  | case4 known i l rest o ho hk hf ih =>
    -- The search goes to the end and back, and then the walk goes on from the next line.
    rw [List.length_cons] at hlen
    have hr := drop_succ_of_drop_eq_cons hd
    obtain ⟨known', hs⟩ := ih (found ++ [.unclosed i o]) hr (by omega) (by omega)
    refine ⟨known', ?_⟩
    have hrun := Steps.cons (step_open hd ho hk) ((steps_of_findClose?_none hr hf).trans hs)
    rw [List.append_assoc, List.singleton_append] at hrun
    convert hrun using 1
    simp only [List.length_cons, List.map_cons, List.sum_cons, Finding.detour]
    omega
  | case5 known i l rest o ho hk n trailing hf ih =>
    rw [List.length_cons] at hlen
    have hr := drop_succ_of_drop_eq_cons hd
    have hn : n < rest.length := by
      obtain ⟨body, close, post, rfl, rfl, -⟩ := Opener.findClose?_eq_some_iff.1 hf
      simp
    have hi2 : i + 1 + n + 1 = i + 2 + n := by omega
    have hdrop : ls.drop (i + 2 + n) = rest.drop (n + 1) := by
      rw [← hr, List.drop_drop]
      congr 1
      omega
    obtain ⟨known', hs⟩ := ih (found ++ [.block ⟨i, i + 1 + n, o, trailing⟩]) hdrop (by omega)
      (by rw [List.length_drop]; omega)
    refine ⟨known', ?_⟩
    have hclose : Steps ls (n + 1) ⟨i + 1, .close i o, known, found⟩
        ⟨i + 2 + n, .opener, known, found ++ [.block ⟨i, i + 1 + n, o, trailing⟩]⟩ :=
      hi2 ▸ steps_of_findClose?_some hr hf
    have hrun := Steps.cons (step_open hd ho hk) (hclose.trans hs)
    rw [List.append_assoc, List.singleton_append] at hrun
    convert hrun using 1
    simp only [List.length_cons, List.map_cons, List.sum_cons, Finding.detour, List.length_drop]
    omega

/-- What a walk found to be unclosed and had not found before ran off the end on the way. -/
theorem Steps.exists_ranOff {w v : Walk} {n : Nat} (h : Steps ls n w v)
    (hm : .unclosed i o ∈ v.found) (hw : .unclosed i o ∉ w.found) :
    ∃ m u, Steps ls m w u ∧ u.RanOff ls i o := by
  induction h with
  | refl w => contradiction
  | @cons n w x v hs _ ih =>
    by_cases hx : .unclosed i o ∈ x.found
    · rcases step_cases hs with rfl | ⟨p, -, -, rfl⟩ | ⟨j, p, trailing, -, rfl⟩ | ⟨j, p, hr, rfl⟩
      · contradiction
      · contradiction
      · exact absurd (by simpa using hx) hw
      · obtain ⟨rfl, rfl⟩ : i = j ∧ o = p := by simpa [hw] using hx
        exact ⟨0, w, .refl w, hr⟩
    · obtain ⟨m, u, hu, hr⟩ := ih hm hx
      exact ⟨m + 1, u, .cons hs hu, hr⟩

end End

/-- The state in which a walk through a document ends. -/
theorem exists_end (ls : List Line) :
    ∃ w, Steps ls (ls.length + ((scan ls).map (Finding.detour ls.length)).sum) {} w ∧
      w.step ls = none ∧ w.found = scan ls := by
  obtain ⟨known, hs⟩ := exists_steps [] 0 ls [] List.drop_zero (Nat.zero_le _)
  refine ⟨_, hs, ?_, List.nil_append _⟩
  simp [step]

theorem unclosed_mem_scan_iff {ls : List Line} {i : Nat} {o : Opener} :
    .unclosed i o ∈ scan ls ↔ ∃ n w, Steps ls n {} w ∧ w.RanOff ls i o := by
  obtain ⟨e, he, hn, hf⟩ := exists_end ls
  rw [← hf]
  constructor
  · intro hm
    exact he.exists_ranOff hm (by simp)
  · rintro ⟨n, w, hw, hr⟩
    have hnext := hw.trans (.cons hr.step_eq (.refl _))
    rcases Nat.le_total (n + 1) (ls.length + ((scan ls).map (Finding.detour ls.length)).sum)
      with hle | hle
    · obtain ⟨k, -, hk⟩ := hnext.exists_rest he hle
      exact hk.found_subset (by simp)
    · -- A walk does not go on from its end.
      obtain ⟨k, -, hk⟩ := he.exists_rest hnext hle
      cases hk with
      | refl => simp
      | cons hs _ =>
        rw [hn] at hs
        contradiction

end Walk

/-- The walk through a document ends, with what the scan finds, although it goes back: it reads all
lines once and, for each fence that is not closed, the lines after it once more. Of the fences with
the same indentation and marker that run off the end, the later one is opened later and is shorter,
so that the walk goes to the end for the same fence once only. -/
theorem walk_ends (ls : List Line) :
    (∃ w, Walk.Steps ls (ls.length + ((scan ls).map (Finding.detour ls.length)).sum) {} w ∧
      w.step ls = none ∧ w.found = scan ls) ∧
    (∀ i o, .unclosed i o ∈ scan ls ↔ ∃ n w, Walk.Steps ls n {} w ∧ w.RanOff ls i o) ∧
    (∀ m n w v i j o p, Walk.Steps ls m {} w → Walk.Steps ls n {} v → m < n → w.RanOff ls i o →
      v.RanOff ls j p → o.indent = p.indent → o.fence.marker = p.fence.marker →
      i < j ∧ p.fence.length < o.fence.length) ∧
    ∀ m n w v i j o p, Walk.Steps ls m {} w → Walk.Steps ls n {} v → w.RanOff ls i o →
      v.RanOff ls j p → o.indent = p.indent → o.fence = p.fence → m = n := by
  refine ⟨Walk.exists_end ls, fun i o => Walk.unclosed_mem_scan_iff, ?_, ?_⟩
  · intro m n w v i j o p hw hv hmn ho hp hi hf
    obtain ⟨hij, hl⟩ := Walk.RanOff.lt hw hv hmn ho hp
    exact ⟨hij, hl ⟨hi, hf⟩⟩
  · intro m n w v i j o p hw hv ho hp hi hf
    rcases Nat.lt_trichotomy m n with hmn | hmn | hmn
    · have hl := (Walk.RanOff.lt hw hv hmn ho hp).2 ⟨hi, hf ▸ rfl⟩
      rw [hf] at hl
      omega
    · exact hmn
    · have hl := (Walk.RanOff.lt hv hw hmn hp ho).2 ⟨hi.symm, hf ▸ rfl⟩
      rw [hf] at hl
      omega

/-- Two fences of one shape that nothing closes, the longer one first. -/
def longerFirst : List Line := Text.splitLines "````\n```\n".toList

/-- The two searches to the end and the steps back make five steps. -/
theorem walk_ends_longerFirst :
    (∃ w, Walk.Steps longerFirst 5 {} w ∧ w.step longerFirst = none) ∧
    (∃ n w, Walk.Steps longerFirst n {} w ∧ w.RanOff longerFirst 0 ⟨[], ⟨'\x60', 4⟩, []⟩) ∧
    ∃ n w, Walk.Steps longerFirst n {} w ∧ w.RanOff longerFirst 1 ⟨[], ⟨'\x60', 3⟩, []⟩ := by
  have hs : scan longerFirst =
      [.unclosed 0 ⟨[], ⟨'\x60', 4⟩, []⟩, .unclosed 1 ⟨[], ⟨'\x60', 3⟩, []⟩] := by
    decide +kernel
  obtain ⟨⟨w, hw, hn, -⟩, hr, -⟩ := walk_ends longerFirst
  rw [hs] at hw hr
  exact ⟨⟨w, hw, hn⟩, (hr _ _).1 (by simp), (hr _ _).1 (by simp)⟩

end FencedCode
