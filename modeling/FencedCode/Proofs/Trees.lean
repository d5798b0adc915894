import FencedCode.Files.Tree
import Mathlib.Data.List.Basic

/-! Files whose content is replaced. The tree keeps its shape, so that every path leads where it led
before, and the other files are not touched. -/
namespace FencedCode

/-- What an entry is, apart from the content of a file. -/
def Entry.shape : Entry → Option Access
  | .file _ access => some access
  | .directory => none

/-- A file in a tree: its place, its content, and what may be done with it. -/
structure FileAt where
  place : Place
  content : Bytes
  access : Access
  deriving DecidableEq

namespace Tree

/-- The trees differ in nothing but the contents of files. -/
structure SameShape (t u : Tree) : Prop where
  directory : u.directory = t.directory
  shape : ∀ p, (u.get? p).map Entry.shape = (t.get? p).map Entry.shape

/-- The file that a path leads to. -/
def file? (t : Tree) (p : Path) : Option FileAt :=
  match t.resolve p with
  | .error _ => none
  | .ok place =>
    match t.get? place with
    | some (.file content access) => some ⟨place, content, access⟩
    | _ => none

def isWritable (t : Tree) (p : Path) : Bool := (t.file? p).any (·.access.writable)

/-- The tree with another content in the file that a path leads to. -/
def refill (t : Tree) (p : Path) (content : Bytes) : Tree :=
  match t.file? p with
  | none => t
  | some x => t.set x.place (.file content x.access)

/-- The paths lead to different files. -/
def Apart (t : Tree) (p q : Path) : Prop :=
  ∀ x ∈ t.file? p, ∀ y ∈ t.file? q, x.place ≠ y.place

/-- No two of the paths lead to the same file. -/
def Distinct (t : Tree) (paths : List Path) : Prop := paths.Pairwise t.Apart

instance (t : Tree) (p q : Path) : Decidable (t.Apart p q) :=
  inferInstanceAs (Decidable (∀ x ∈ t.file? p, ∀ y ∈ t.file? q, x.place ≠ y.place))

instance (t : Tree) (paths : List Path) : Decidable (t.Distinct paths) :=
  inferInstanceAs (Decidable (paths.Pairwise t.Apart))

theorem lookup_setIn (p q : Place) (e : Entry) (l : List (Place × Entry)) :
    (set.setIn p e l).lookup q = if q = p then some e else l.lookup q := by
  induction l with
  | nil =>
    by_cases h : q = p <;> simp [set.setIn, h, List.lookup_cons, beq_eq_false_iff_ne.2]
  | cons x l ih =>
    obtain ⟨r, f⟩ := x
    rw [set.setIn]
    by_cases hr : r = p
    · subst hr
      by_cases h : q = r <;> simp [h, List.lookup_cons, beq_eq_false_iff_ne.2]
    · rw [if_neg hr, List.lookup_cons, ih, List.lookup_cons]
      by_cases hq : q = r
      · simp [hq, hr]
      · simp [beq_eq_false_iff_ne.2 hq]

theorem get?_set {t : Tree} {p : Place} (hp : p ≠ []) (e : Entry) (q : Place) :
    (t.set p e).get? q = if q = p then some e else t.get? q := by
  unfold get? set
  by_cases hq : q = []
  · simp [hq, hp.symm]
  · rw [if_neg hq, if_neg hq, lookup_setIn]

namespace SameShape

variable {t u v : Tree}

theorem refl (t : Tree) : SameShape t t := ⟨rfl, fun _ => rfl⟩

theorem trans (h : SameShape t u) (h' : SameShape u v) : SameShape t v :=
  ⟨h'.directory.trans h.directory, fun p => (h'.shape p).trans (h.shape p)⟩

theorem get?_cases (h : SameShape t u) (p : Place) :
    (t.get? p = none ∧ u.get? p = none) ∨
      (t.get? p = some .directory ∧ u.get? p = some .directory) ∨
      ∃ c c' access, t.get? p = some (.file c access) ∧ u.get? p = some (.file c' access) := by
  have hs := h.shape p
  cases ht : t.get? p with
  | none => simpa [ht] using hs
  | some d =>
    cases hu : u.get? p with
    | none => simp [ht, hu] at hs
    | some e => cases d <;> cases e <;> simp_all [Entry.shape]

theorem walk_eq (h : SameShape t u) (here : Place) (names : List Text) :
    u.walk here names = t.walk here names := by
  induction names generalizing here with
  | nil => rfl
  | cons name names ih =>
    unfold walk
    obtain ⟨ht, hu⟩ | ⟨ht, hu⟩ | ⟨c, c', access, ht, hu⟩ := h.get?_cases here
    · rw [ht, hu]
    · simp only [ht, hu, ih]
    · rw [ht, hu]

theorem resolve_eq (h : SameShape t u) (p : Path) : u.resolve p = t.resolve p := by
  unfold resolve
  simp only [h.walk_eq, h.directory]

end SameShape

variable {t : Tree} {p q : Path} {x : FileAt}

theorem file?_eq_some_iff : t.file? p = some x ↔
    t.resolve p = .ok x.place ∧ t.get? x.place = some (.file x.content x.access) := by
  unfold file?
  cases hr : t.resolve p with
  | error e => simp
  | ok place =>
    constructor
    · intro h
      simp only at h
      split at h
      · next content access hg =>
        obtain rfl := Option.some.inj h
        exact ⟨rfl, hg⟩
      · contradiction
    · rintro ⟨hp, hg⟩
      obtain rfl := Except.ok.inj hp
      simp only [hg]

theorem read_eq_ok_iff {content : Bytes} : t.read p = .ok content ↔
    ∃ x, t.file? p = some x ∧ x.access.readable ∧ x.content = content := by
  unfold read
  simp only [file?_eq_some_iff]
  cases hr : t.resolve p with
  | error e => simp [bind, Except.bind]
  | ok place =>
    simp only [bind, Except.bind, Except.ok.injEq]
    constructor
    · intro h
      split at h
      · contradiction
      · contradiction
      · next c access hg =>
        split at h
        · next ha => exact ⟨⟨place, c, access⟩, ⟨rfl, hg⟩, ha, Except.ok.inj h⟩
        · contradiction
    · rintro ⟨x, ⟨rfl, hg⟩, ha, rfl⟩
      simp only [hg, ha, if_true]

theorem exists_file_of_readText {text : Text} (h : t.readText p = .ok text) :
    ∃ x, t.file? p = some x ∧ Utf8.decode x.content = .ok text := by
  unfold readText at h
  cases hr : t.read p with
  | error e =>
    rw [hr] at h
    contradiction
  | ok content =>
    rw [hr] at h
    obtain ⟨x, hx, -, rfl⟩ := read_eq_ok_iff.1 hr
    refine ⟨x, hx, ?_⟩
    simp only [bind, Except.bind] at h
    split at h
    · next hd => rw [hd, Except.ok.inj h]
    · contradiction

theorem place_ne_nil (h : t.file? p = some x) : x.place ≠ [] := by
  intro hn
  have hg := (file?_eq_some_iff.1 h).2
  rw [hn] at hg
  simp [get?] at hg

theorem get?_refill (h : t.file? p = some x) (content : Bytes) (place : Place) :
    (t.refill p content).get? place =
      if place = x.place then some (.file content x.access) else t.get? place := by
  rw [refill, h]
  exact get?_set (place_ne_nil h) _ _

theorem sameShape_refill (t : Tree) (p : Path) (content : Bytes) :
    SameShape t (t.refill p content) := by
  cases h : t.file? p with
  | none =>
    rw [refill, h]
    exact .refl t
  | some x =>
    refine ⟨by rw [refill, h]; rfl, fun place => ?_⟩
    rw [get?_refill h]
    split
    · next hp => rw [hp, (file?_eq_some_iff.1 h).2, Option.map_some, Option.map_some]; rfl
    · rfl

theorem write_eq (h : t.file? p = some x) (content : Bytes) :
    t.write p content =
      if x.access.writable then .ok (t.refill p content) else .error .permissionDenied := by
  obtain ⟨hr, hg⟩ := file?_eq_some_iff.1 h
  unfold write refill
  simp only [hr, hg, h, bind, Except.bind]

theorem file?_refill_self (content : Bytes) :
    (t.refill p content).file? p = (t.file? p).map fun x => { x with content } := by
  cases h : t.file? p with
  | none =>
    rw [refill, h]
    exact h
  | some x =>
    rw [Option.map_some, file?_eq_some_iff, (sameShape_refill t p content).resolve_eq,
      get?_refill h, if_pos rfl]
    exact ⟨(file?_eq_some_iff.1 h).1, rfl⟩

theorem Apart.symm (h : t.Apart p q) : t.Apart q p := fun x hx y hy => (h y hy x hx).symm

theorem Apart.file?_refill (h : t.Apart p q) (content : Bytes) :
    (t.refill p content).file? q = t.file? q := by
  cases hp : t.file? p with
  | none => rw [refill, hp]
  | some x =>
    rw [file?, file?, (sameShape_refill t p content).resolve_eq]
    cases hr : t.resolve q with
    | error e => rfl
    | ok place =>
      have hne : place ≠ x.place := by
        rintro rfl
        have hq : t.file? q = some x :=
          file?_eq_some_iff.2 ⟨hr, (file?_eq_some_iff.1 hp).2⟩
        exact h x hp x hq rfl
      simp only [get?_refill hp, if_neg hne]

theorem SameShape.exists_file {u : Tree} {y : FileAt} (h : SameShape t u)
    (hy : u.file? p = some y) : ∃ x, t.file? p = some x ∧ x.place = y.place := by
  obtain ⟨hr, hg⟩ := file?_eq_some_iff.1 hy
  rw [h.resolve_eq] at hr
  obtain ⟨ht, hu⟩ | ⟨ht, hu⟩ | ⟨c, c', access, ht, hu⟩ := h.get?_cases y.place
  · simp [hu] at hg
  · simp [hu] at hg
  · exact ⟨⟨y.place, c, access⟩, file?_eq_some_iff.2 ⟨hr, ht⟩, rfl⟩

theorem SameShape.apart {u : Tree} (h : SameShape t u) (ha : t.Apart p q) : u.Apart p q := by
  intro x hx y hy
  obtain ⟨x', hx', hxp⟩ := h.exists_file hx
  obtain ⟨y', hy', hyp⟩ := h.exists_file hy
  rw [← hxp, ← hyp]
  exact ha x' hx' y' hy'

/-- What is read depends on nothing but the shape of the tree and the file itself. -/
theorem SameShape.readText_eq {u : Tree} (h : SameShape t u) (hf : u.file? p = t.file? p) :
    u.readText p = t.readText p := by
  have hr : u.read p = t.read p := by
    have hres := h.resolve_eq p
    unfold file? at hf
    unfold read
    rw [hres] at hf ⊢
    cases hr : t.resolve p with
    | error e => rfl
    | ok place =>
      simp only [hr] at hf
      simp only [bind, Except.bind]
      obtain ⟨ht, hu⟩ | ⟨ht, hu⟩ | ⟨c, c', access, ht, hu⟩ := h.get?_cases place
      · rw [ht, hu]
      · rw [ht, hu]
      · simp only [ht, hu, Option.some.injEq, FileAt.mk.injEq, true_and, and_true] at hf
        rw [ht, hu, hf]
  unfold readText
  rw [hr]

end Tree

end FencedCode
