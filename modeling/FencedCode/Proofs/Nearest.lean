import FencedCode.Settings.Discovery
import Mathlib.Data.List.Basic
import Mathlib.Data.List.TakeWhile

/-! The search for the settings file. The directories around a path are those that are left as one
component of it after the other is dropped, and the file that is found is the nearest one. -/
namespace FencedCode

section Names

theorem names_ne_nil (p : Path) : Tree.names p ≠ [] := by
  cases p with
  | nil => simp [Tree.names]
  | cons c p =>
    rw [Tree.names]
    split_ifs
    · simp
    · split <;> simp

/-- A slash separates names. -/
theorem names_append_slash (p q : Path) :
    Tree.names (p ++ '/' :: q) = Tree.names p ++ Tree.names q := by
  induction p with
  | nil => simp [Tree.names]
  | cons c p ih =>
    rw [List.cons_append, Tree.names, Tree.names, ih]
    split_ifs with hc
    · rfl
    · cases hp : Tree.names p with
      | nil => exact absurd hp (names_ne_nil p)
      | cons n ns => rfl

theorem names_of_not_mem {n : Text} (h : '/' ∉ n) : Tree.names n = [n] := by
  induction n with
  | nil => rfl
  | cons c n ih =>
    rw [List.mem_cons, not_or] at h
    rw [Tree.names, if_neg (Ne.symm h.1), ih h.2]

end Names

namespace Path

def isAbsolute (p : Path) : Bool := p.head? == some '/'

/-- Empty names and single dots lead nowhere. -/
def isComponent (n : Text) : Bool := n != [] && n != ['.']

/-- The names that a path is made of. A single dot counts only at the start of a path. -/
def components (p : Path) : List Text :=
  match Tree.names p with
  | [] => []
  | n :: ns => [n].filter (· != []) ++ ns.filter isComponent

/-- What is left of a path when its last component is dropped so many times. -/
def above? : Nat → Path → Option Path
  | 0, p => some p
  | n + 1, p => (parent? p).bind (above? n)

theorem components_append_slash (p : Path) {n : Text} (h : '/' ∉ n) :
    components (p ++ '/' :: n) = components p ++ [n].filter isComponent := by
  rw [components, components, names_append_slash, names_of_not_mem h]
  cases hp : Tree.names p with
  | nil => exact absurd hp (names_ne_nil p)
  | cons m ms => simp only [List.cons_append, List.filter_append, List.append_assoc]

theorem components_of_not_mem {n : Text} (h : '/' ∉ n) : components n = [n].filter (· != []) := by
  rw [components, names_of_not_mem h]
  simp only [List.filter_nil, List.append_nil]

/-- Slashes and single dots at the end of a path are no components of it. -/
theorem components_trimBackwards (t : Text) :
    components (trimBackwards t).reverse = components t.reverse := by
  fun_induction trimBackwards t with
  | case1 => rfl
  | case2 r _ ih =>
    rw [ih, List.reverse_cons, components_append_slash _ (by simp)]
    simp [isComponent]
  | case3 r ih =>
    have hd : ('.' :: '/' :: r).reverse = r.reverse ++ ['/', '.'] := by simp
    rw [ih, hd, List.reverse_cons, components_append_slash _ (by simp),
      components_append_slash _ (by simp)]
    simp [isComponent]
  | case4 => rfl

/-- The first character of a path stays. -/
theorem getLast?_trimBackwards (t : Text) : (trimBackwards t).getLast? = t.getLast? := by
  fun_induction trimBackwards t with
  | case1 => rfl
  | case2 r hr ih =>
    rw [ih]
    cases r with
    | nil => exact absurd rfl hr
    | cons c r => rw [List.getLast?_cons_cons]
  | case3 r ih => rw [ih, List.getLast?_cons_cons]
  | case4 => rfl

theorem trimBackwards_cases (t : Text) :
    trimBackwards t = [] ∨ trimBackwards t = ['/'] ∨
      ∃ c r, trimBackwards t = c :: r ∧ c ≠ '/' ∧ (c = '.' → r.head? ≠ some '/') := by
  fun_induction trimBackwards t with
  | case1 => exact .inr (.inl rfl)
  | case2 r _ ih => exact ih
  | case3 r ih => exact ih
  | case4 t h₁ h₂ h₃ =>
    cases t with
    | nil => exact .inl rfl
    | cons c r =>
      refine .inr (.inr ⟨c, r, rfl, ?_, ?_⟩)
      · rintro rfl
        exact h₂ r rfl
      · rintro rfl hr
        obtain ⟨s, rfl⟩ := List.head?_eq_some_iff.1 hr
        exact h₃ s rfl

/-- The last name of a path that is written backwards and trimmed is a component, and what stands
before it has the other ones. -/
theorem components_cons {c : Char} {r : Text} (hc : c ≠ '/') (hd : c = '.' → r.head? ≠ some '/') :
    ∃ name, components (c :: r).reverse =
      components (r.dropWhile (· != '/')).reverse ++ [name] := by
  obtain ⟨n, hn, hr⟩ : ∃ n, '/' ∉ n ∧ r = n ++ r.dropWhile (· != '/') := by
    refine ⟨r.takeWhile (· != '/'), fun hm => ?_, (List.takeWhile_append_dropWhile ..).symm⟩
    simpa using List.mem_takeWhile_imp hm
  have hname : '/' ∉ (c :: n).reverse := by
    rw [List.mem_reverse, List.mem_cons, not_or]
    exact ⟨hc.symm, hn⟩
  refine ⟨(c :: n).reverse, ?_⟩
  cases hs : r.dropWhile (· != '/') with
  | nil =>
    rw [hs, List.append_nil] at hr
    rw [hr, components_of_not_mem hname]
    simp [components, Tree.names]
  | cons d s =>
    obtain rfl : d = '/' := by
      have hh := List.head?_dropWhile_not (· != '/') r
      rw [hs] at hh
      simpa using hh
    have hsplit : (c :: r).reverse = s.reverse ++ '/' :: (c :: n).reverse := by
      rw [hr, hs]
      simp
    have hcomp : isComponent (c :: n).reverse := by
      rw [isComponent, Bool.and_eq_true, bne_iff_ne, bne_iff_ne]
      refine ⟨by simp, fun he => ?_⟩
      -- A single dot before a slash would have been trimmed.
      obtain ⟨rfl, rfl⟩ : c = '.' ∧ n = [] := by simpa using congrArg List.reverse he
      exact hd rfl (by rw [hr, hs]; rfl)
    have hstem : ('/' :: s).reverse = s.reverse ++ ['/'] := List.reverse_cons
    rw [hsplit, hstem, components_append_slash _ hname, components_append_slash _ (by simp),
      List.filter_cons_of_pos hcomp, List.filter_cons_of_neg (by decide), List.filter_nil,
      List.append_nil]

theorem getLast?_dropWhile_iff {c : Char} (hc : c ≠ '/') (r : Text) :
    (r.dropWhile (· != '/')).getLast? = some '/' ↔ (c :: r).getLast? = some '/' := by
  induction r generalizing c with
  | nil => simp [hc]
  | cons d r ih =>
    rw [List.getLast?_cons_cons]
    by_cases hd : d = '/'
    · rw [hd, List.dropWhile_cons_of_neg (by simp)]
    · rw [List.dropWhile_cons_of_pos (by simpa using hd)]
      exact ih hd

/-- What the parent of a path is: a path without components has none, and another one has the path
with the components before the last one. -/
theorem parent?_cases (p : Path) :
    (parent? p = none ∧ components p = []) ∨
      ∃ q name, parent? p = some q ∧ components p = components q ++ [name] ∧
        isAbsolute q = isAbsolute p := by
  have hcomp := components_trimBackwards p.reverse
  rw [List.reverse_reverse] at hcomp
  have hlast := getLast?_trimBackwards p.reverse
  rw [List.getLast?_reverse] at hlast
  rw [parent?]
  rcases trimBackwards_cases p.reverse with ht | ht | ⟨c, r, ht, hc, hd⟩
  · rw [ht] at hcomp ⊢
    exact .inl ⟨rfl, hcomp.symm⟩
  · rw [ht] at hcomp ⊢
    exact .inl ⟨rfl, hcomp.symm⟩
  · rw [ht] at hcomp hlast ⊢
    obtain ⟨name, hn⟩ := components_cons hc hd
    refine .inr ⟨(trimBackwards (r.dropWhile (· != '/'))).reverse, name, ?_, ?_, ?_⟩
    · split
      · contradiction
      · next h => exact absurd (List.cons.inj h).1 hc
      · next h => rw [(List.cons.inj h).2]
    · rw [components_trimBackwards, ← hn, hcomp]
    · rw [isAbsolute, isAbsolute, List.head?_reverse, getLast?_trimBackwards, ← hlast,
        Bool.eq_iff_iff, beq_iff_eq, beq_iff_eq]
      exact getLast?_dropWhile_iff hc r

theorem components_above? {n : Nat} {p d : Path} (h : above? n p = some d) :
    isAbsolute d = isAbsolute p ∧ ∃ names, components p = components d ++ names ∧
      names.length = n := by
  induction n generalizing p with
  | zero =>
    obtain rfl := Option.some.inj h
    exact ⟨rfl, [], (List.append_nil _).symm, rfl⟩
  | succ n ih =>
    obtain ⟨q, hq, hd⟩ := Option.bind_eq_some_iff.1 h
    obtain ⟨ha, names, hn, hl⟩ := ih hd
    rcases parent?_cases p with ⟨hp, -⟩ | ⟨q', name, hp, hc, hs⟩
    · rw [hp] at hq
      contradiction
    · obtain rfl := Option.some.inj (hq.symm.trans hp)
      refine ⟨ha.trans hs, names ++ [name], ?_, by simp [hl]⟩
      rw [hc, hn, List.append_assoc]

/-- There are as many directories above a path as the path has components. -/
theorem isSome_above?_iff {n : Nat} {p : Path} :
    (above? n p).isSome ↔ n ≤ (components p).length := by
  induction n generalizing p with
  | zero => simp [above?]
  | succ n ih =>
    rcases parent?_cases p with ⟨hp, hc⟩ | ⟨q, name, hp, hc, -⟩
    · simp [above?, hp, hc]
    · simp [above?, hp, hc, ih]

/-- A path that is not absolute and has no component is empty. -/
theorem eq_nil_of_components {p : Path} (hc : components p = []) (ha : isAbsolute p = false) :
    p = [] := by
  cases p with
  | nil => rfl
  | cons c p =>
    have hs : c ≠ '/' := by simpa [isAbsolute] using ha
    rw [components, Tree.names, if_neg hs] at hc
    cases hp : Tree.names p with
    | nil => exact absurd hp (names_ne_nil p)
    | cons n ns => simp [hp] at hc

theorem getElem?_ancestors (p : Path) (n : Nat) : (ancestors p)[n]? = above? n p := by
  induction n generalizing p with
  | zero =>
    rw [ancestors]
    split <;> rfl
  | succ n ih =>
    rw [ancestors]
    split
    · next hp => simp [above?, hp]
    · next q hp => rw [List.getElem?_cons_succ, ih, above?, hp, Option.bind_some]

end Path

namespace Settings

/-- In a directory the visible file counts more than the hidden one. -/
theorem find?_candidates {tree : Tree} {d p : Path} :
    (candidates d).find? tree.isFile = some p ↔
      (p = d.join "blacken-docs.toml".toList ∧ tree.isFile p) ∨
        (p = d.join ".blacken-docs.toml".toList ∧ tree.isFile p ∧
          tree.isFile (d.join "blacken-docs.toml".toList) = false) := by
  have hc : candidates d =
      [d.join "blacken-docs.toml".toList, d.join ".blacken-docs.toml".toList] := rfl
  rw [hc]
  generalize d.join "blacken-docs.toml".toList = visible
  generalize d.join ".blacken-docs.toml".toList = hidden
  cases hv : tree.isFile visible with
  | true =>
    rw [List.find?_cons_of_pos hv]
    constructor
    · rintro ⟨⟩
      exact .inl ⟨rfl, hv⟩
    · rintro (⟨rfl, -⟩ | ⟨-, -, hf⟩)
      · rfl
      · contradiction
  | false =>
    rw [List.find?_cons_of_neg (by simp [hv]), List.find?_singleton]
    constructor
    · intro h
      obtain ⟨hf, ⟨⟩⟩ := Option.ite_none_right_eq_some.1 h
      exact .inr ⟨rfl, hf, rfl⟩
    · rintro (⟨rfl, hf⟩ | ⟨rfl, hf, -⟩)
      · rw [hv] at hf
        contradiction
      · rw [if_pos hf]

theorem find?_candidates_eq_none {tree : Tree} {d : Path} :
    (candidates d).find? tree.isFile = none ↔
      ∀ name ∈ fileNames, tree.isFile (d.join name) = false := by
  simp [candidates]

/-- The search goes through the directories in order and stops at the first one with a file. -/
theorem find?_eq_some_iff {tree : Tree} {start p : Path} :
    find? tree start = some p ↔ ∃ n d, start.above? n = some d ∧
      (candidates d).find? tree.isFile = some p ∧
      ∀ m < n, ∀ e, start.above? m = some e → (candidates e).find? tree.isFile = none := by
  rw [find?, List.find?_flatMap, List.findSome?_eq_some_iff]
  simp only [← Path.getElem?_ancestors]
  generalize start.ancestors = ds
  constructor
  · rintro ⟨before, d, after, rfl, hd, hb⟩
    refine ⟨before.length, d, by simp, hd, fun m hm e he => hb e ?_⟩
    rw [List.getElem?_append_left hm] at he
    exact List.mem_of_getElem? he
  · rintro ⟨n, d, hn, hd, hb⟩
    obtain ⟨hl, hg⟩ := List.getElem?_eq_some_iff.1 hn
    refine ⟨ds.take n, d, ds.drop (n + 1), ?_, hd, fun e he => ?_⟩
    · rw [← hg, List.getElem_cons_drop, List.take_append_drop]
    · obtain ⟨m, hm⟩ := List.mem_iff_getElem?.1 he
      rw [List.getElem?_take] at hm
      obtain ⟨hmn, hm⟩ := Option.ite_none_right_eq_some.1 hm
      exact hb m hmn e hm

theorem find?_eq_none_iff {tree : Tree} {start : Path} :
    find? tree start = none ↔
      ∀ n d, start.above? n = some d → (candidates d).find? tree.isFile = none := by
  rw [find?, List.find?_flatMap, List.findSome?_eq_none_iff]
  simp only [← Path.getElem?_ancestors, List.mem_iff_getElem?]
  constructor
  · intro h n d hd
    exact h d ⟨n, hd⟩
  · rintro h d ⟨n, hd⟩
    exact h n d hd

end Settings

/-- The search for the settings file goes through a path and what is left of it as its components
are dropped from the end, down to the empty path or to the root, and it takes the file in the first
of these directories that has one. The hidden file is taken only where the visible one is missing,
and nothing is found exactly if none of the directories has either. -/
theorem settings_find?_nearest (tree : Tree) (start : Path) :
    (∀ n, (start.above? n).isSome ↔ n ≤ start.components.length) ∧
    (∀ n d, start.above? n = some d → d.isAbsolute = start.isAbsolute ∧
      d.components = start.components.take (start.components.length - n)) ∧
    (start.isAbsolute = false → start.above? start.components.length = some []) ∧
    (∀ p, Settings.find? tree start = some p ↔ ∃ n d, start.above? n = some d ∧
      (∀ m < n, ∀ e, start.above? m = some e →
        ∀ name ∈ Settings.fileNames, tree.isFile (e.join name) = false) ∧
      ((p = d.join "blacken-docs.toml".toList ∧ tree.isFile p) ∨
        (p = d.join ".blacken-docs.toml".toList ∧ tree.isFile p ∧
          tree.isFile (d.join "blacken-docs.toml".toList) = false))) ∧
    (Settings.find? tree start = none ↔ ∀ n d, start.above? n = some d →
      ∀ name ∈ Settings.fileNames, tree.isFile (d.join name) = false) := by
  have hdrop : ∀ n d, start.above? n = some d → d.isAbsolute = start.isAbsolute ∧
      d.components = start.components.take (start.components.length - n) := by
    intro n d hd
    obtain ⟨ha, names, hc, hl⟩ := Path.components_above? hd
    refine ⟨ha, ?_⟩
    rw [hc, List.length_append, hl, Nat.add_sub_cancel, List.take_left]
  refine ⟨fun n => Path.isSome_above?_iff, hdrop, fun ha => ?_, fun p => ?_, ?_⟩
  · obtain ⟨d, hd⟩ := Option.isSome_iff_exists.1 (Path.isSome_above?_iff.2 (Nat.le_refl _))
    obtain ⟨hs, hc⟩ := hdrop _ d hd
    rw [Nat.sub_self, List.take_zero] at hc
    rw [hd, Path.eq_nil_of_components hc (hs.trans ha)]
  · simp only [Settings.find?_eq_some_iff, Settings.find?_candidates,
      Settings.find?_candidates_eq_none]
    exact exists_congr fun n => exists_congr fun d => and_congr_right fun _ => and_comm
  · simp only [Settings.find?_eq_none_iff, Settings.find?_candidates_eq_none]

/-- A directory that has the name of a settings file, below one with the hidden file, below one with
the visible file. -/
def shadowedTree : Tree where
  entries := [(["docs".toList], .directory), (["docs".toList, "api".toList], .directory),
    (["docs".toList, "api".toList, "blacken-docs.toml".toList], .directory),
    (["docs".toList, ".blacken-docs.toml".toList], .file [] {}),
    (["blacken-docs.toml".toList], .file [] {})]

/-- The hidden file in the parent is nearer than the visible one, and the directory does not
count. -/
theorem settings_find?_nearest_shadowedTree :
    Settings.find? shadowedTree "docs/./api/".toList = some "docs/.blacken-docs.toml".toList ∧
      Path.above? 2 "docs/./api/".toList = some [] := by
  obtain ⟨-, -, hend, hsome, -⟩ := settings_find?_nearest shadowedTree "docs/./api/".toList
  refine ⟨(hsome _).2 ⟨1, "docs".toList, by decide +kernel, ?_, .inr (by decide +kernel)⟩, ?_⟩
  · intro m hm e he
    obtain rfl : m = 0 := by omega
    obtain rfl := Option.some.inj he
    decide +kernel
  · exact hend (by decide)

end FencedCode
