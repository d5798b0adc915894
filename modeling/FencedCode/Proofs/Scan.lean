import FencedCode.Block
import Mathlib.Data.List.Basic

/-! The scan for blocks does not depend on its memory: it finds the blocks that a scan finds which
searches to the end of the document for every opener it meets. -/
namespace FencedCode

namespace Fence

/-- What closes a fence closes every shorter one of the same marker. -/
theorem closes?_of_le {f g : Fence} (hm : f.marker = g.marker) (hl : g.length ≤ f.length)
    {t w : Text} (h : f.closes? t = some w) : g.closes? t = some w := by
  simp only [closes?, hm, Bool.and_eq_true, decide_eq_true_eq] at h ⊢
  split at h
  · next hc =>
    rw [if_pos ⟨Nat.le_trans hl hc.1, hc.2⟩]
    exact h
  · simp at h

end Fence

namespace Opener

theorem closes?_of_le {o p : Opener} (hi : o.indent = p.indent)
    (hm : o.fence.marker = p.fence.marker) (hl : p.fence.length ≤ o.fence.length)
    {t w : Text} (h : o.closes? t = some w) : p.closes? t = some w := by
  simp only [closes?, hi] at h ⊢
  obtain ⟨rest, hr, hw⟩ := Option.bind_eq_some_iff.1 h
  rw [hr]
  exact Fence.closes?_of_le hm hl hw

theorem findClose?_eq_none_iff {o : Opener} {ls : List Line} :
    o.findClose? ls = none ↔ ∀ l ∈ ls, o.closes? l.content = none := by
  induction ls with
  | nil => simp [findClose?]
  | cons l ls ih =>
    rw [findClose?, List.forall_mem_cons]
    cases hc : o.closes? l.content with
    | some w => simp
    | none => simpa using ih

/-- A search succeeds exactly at the first line that closes the fence. -/
theorem findClose?_eq_some_iff {o : Opener} {ls : List Line} {n : Nat} {w : Text} :
    o.findClose? ls = some (n, w) ↔
      ∃ body close rest, ls = body ++ close :: rest ∧ body.length = n ∧
        (∀ l ∈ body, o.closes? l.content = none) ∧ o.closes? close.content = some w := by
  constructor
  · intro h
    induction ls generalizing n with
    | nil => simp [findClose?] at h
    | cons l ls ih =>
      rw [findClose?] at h
      cases hc : o.closes? l.content with
      | some v =>
        rw [hc] at h
        simp only [Option.some.injEq, Prod.mk.injEq] at h
        obtain ⟨rfl, rfl⟩ := h
        exact ⟨[], l, ls, rfl, rfl, by simp, hc⟩
      | none =>
        rw [hc] at h
        obtain ⟨⟨m, v⟩, hm, he⟩ := Option.map_eq_some_iff.1 h
        simp only [Prod.mk.injEq] at he
        obtain ⟨rfl, rfl⟩ := he
        obtain ⟨body, close, rest, rfl, rfl, hb, hw⟩ := ih hm
        refine ⟨l :: body, close, rest, rfl, rfl, ?_, hw⟩
        exact List.forall_mem_cons.2 ⟨hc, hb⟩
  · rintro ⟨body, close, rest, rfl, rfl, hb, hw⟩
    induction body with
    | nil => simp [findClose?, hw]
    | cons l body ih =>
      have hl := List.forall_mem_cons.1 hb
      rw [List.cons_append, findClose?, hl.1]
      simp [ih hl.2]

/-- The index of the first of the given lines that closes the fence, and the space after the
closing fence. The lines count from `i`. -/
def closing? (o : Opener) (i : Nat) (ls : List Line) : Option (Nat × Text) :=
  (ls.zipIdx i).findSome? fun (l, j) => (o.closes? l.content).map (j, ·)

theorem closing?_eq (o : Opener) (i : Nat) (ls : List Line) :
    o.closing? i ls = (o.findClose? ls).map fun (n, w) => (i + n, w) := by
  induction ls generalizing i with
  | nil => rfl
  | cons l ls ih =>
    have hi := ih (i + 1)
    rw [closing?] at hi
    rw [closing?, List.zipIdx_cons, List.findSome?_cons, hi, findClose?]
    cases hc : o.closes? l.content with
    | some w => simp [hc]
    | none =>
      cases o.findClose? ls with
      | none => simp [hc]
      | some r => simp [hc, Nat.add_assoc, Nat.add_comm 1]

end Opener

/-- The scan without a memory, from the line with index `i` on. A line that opens a fence starts a
block if a later line closes the fence, and the scan goes on after the first such line. Otherwise
it goes on with the next line. -/
def plainScanFrom (i : Nat) : List Line → List Block
  | [] => []
  | l :: ls =>
    match Opener.ofContent? l.content with
    | none => plainScanFrom (i + 1) ls
    | some o =>
      match o.closing? (i + 1) ls with
      | none => plainScanFrom (i + 1) ls
      | some (j, trailing) => ⟨i, j, o, trailing⟩ :: plainScanFrom (j + 1) (ls.drop (j - i))
termination_by ls => ls.length
decreasing_by all_goals simp [List.length_drop]; try omega

namespace Unclosed

/-- Nothing in the lines closes a fence that the memory covers. -/
def Sound (u : Unclosed) (ls : List Line) : Prop := ∀ o, u.covers o → o.findClose? ls = none

theorem sound_nil (ls : List Line) : Sound [] ls := by
  intro o h
  simp [covers, shortest?] at h

theorem Sound.drop {u : Unclosed} {ls : List Line} (h : u.Sound ls) (n : Nat) :
    u.Sound (ls.drop n) := by
  intro o ho
  rw [Opener.findClose?_eq_none_iff]
  intro l hl
  exact Opener.findClose?_eq_none_iff.1 (h o ho) l (List.mem_of_mem_drop hl)

theorem Sound.tail {u : Unclosed} {l : Line} {ls : List Line} (h : u.Sound (l :: ls)) :
    u.Sound ls :=
  h.drop 1

theorem shortest?_record (u : Unclosed) (o p : Opener) :
    (u.record o).shortest? p =
      if (p.indent, p.fence.marker) = (o.indent, o.fence.marker) then
        some (match u.shortest? o with
          | some n => min n o.fence.length
          | none => o.fence.length)
      else u.shortest? p := by
  rw [shortest?, record, List.lookup_cons]
  by_cases hk : (p.indent, p.fence.marker) = (o.indent, o.fence.marker)
  · cases u.shortest? o <;> simp [hk]
  · simp [hk, beq_false_of_ne hk, shortest?]

/-- A memory that takes up a fence without a close covers, beyond what it covered, the fences of
the same shape that are not shorter. -/
theorem covers_record {u : Unclosed} {o p : Opener} (h : (u.record o).covers p) :
    u.covers p ∨ (p.indent = o.indent ∧ p.fence.marker = o.fence.marker ∧
      o.fence.length ≤ p.fence.length) := by
  rw [covers, shortest?_record] at h
  by_cases hk : (p.indent, p.fence.marker) = (o.indent, o.fence.marker)
  · rw [if_pos hk] at h
    have he : u.shortest? p = u.shortest? o := by rw [shortest?, shortest?, hk]
    obtain ⟨hi, hm⟩ := Prod.mk.injEq .. ▸ hk
    rw [covers, he]
    cases hs : u.shortest? o with
    | none =>
      simp only [hs, decide_eq_true_eq] at h
      exact .inr ⟨hi, hm, h⟩
    | some n =>
      simp only [hs, decide_eq_true_eq] at h ⊢
      rcases Nat.le_total n o.fence.length with hn | hn
      · exact .inl (Nat.min_eq_left hn ▸ h)
      · exact .inr ⟨hi, hm, Nat.min_eq_right hn ▸ h⟩
  · rw [if_neg hk] at h
    exact .inl h

theorem Sound.record {u : Unclosed} {o : Opener} {ls : List Line} (h : u.Sound ls)
    (ho : o.findClose? ls = none) : (u.record o).Sound ls := by
  intro p hp
  obtain hu | ⟨hi, hm, hl⟩ := covers_record hp
  · exact h p hu
  · rw [Opener.findClose?_eq_none_iff] at ho ⊢
    intro l hm'
    rw [Option.eq_none_iff_forall_ne_some]
    intro w hw
    have hc := Opener.closes?_of_le hi hm hl hw
    rw [ho l hm'] at hc
    contradiction

end Unclosed

theorem plainScanFrom_cons (i : Nat) (l : Line) (ls : List Line) :
    plainScanFrom i (l :: ls) =
      match Opener.ofContent? l.content with
      | none => plainScanFrom (i + 1) ls
      | some o =>
        match o.findClose? ls with
        | none => plainScanFrom (i + 1) ls
        | some (n, trailing) =>
          ⟨i, i + 1 + n, o, trailing⟩ :: plainScanFrom (i + 2 + n) (ls.drop (n + 1)) := by
  rw [plainScanFrom]
  split
  · rfl
  · next o _ =>
    rw [Opener.closing?_eq]
    cases hf : o.findClose? ls with
    | none => rfl
    | some r =>
      obtain ⟨n, w⟩ := r
      have hj : i + 1 + n + 1 = i + 2 + n := by omega
      have hd : i + 1 + n - i = n + 1 := by omega
      simp only [Option.map_some, hj, hd]

/-- Along a scan the memory stays sound for the lines that are left, so that it never hides a
block. -/
theorem filterMap_scanFrom (known : Unclosed) (i : Nat) (ls : List Line) (h : known.Sound ls) :
    (scanFrom known i ls).filterMap Finding.block? = plainScanFrom i ls := by
  fun_induction scanFrom known i ls with
  | case1 => simp [plainScanFrom]
  | case2 known i l ls ho ih => rw [plainScanFrom_cons, ho, ih h.tail]
  | case3 known i l ls o ho hk ih =>
    rw [plainScanFrom_cons, ho, ih h.tail]
    simp only [h.tail o hk]
  | case4 known i l ls o ho hk hf ih =>
    rw [plainScanFrom_cons, ho, List.filterMap_cons_none rfl, ih (h.tail.record hf)]
    simp only [hf]
  | case5 known i l ls o ho hk n w hf ih =>
    rw [plainScanFrom_cons, ho]
    simp only [hf, ← ih (h.tail.drop (n + 1))]
    rfl

/-- The memory of unclosed fences spares searches and changes no block. -/
theorem scanBlocks_eq_plainScanFrom (ls : List Line) : scanBlocks ls = plainScanFrom 0 ls :=
  filterMap_scanFrom [] 0 ls (Unclosed.sound_nil ls)

end FencedCode
