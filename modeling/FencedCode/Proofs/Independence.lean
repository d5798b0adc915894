import FencedCode.Proofs.UpdateLoop

/-! Files do not depend on each other: with a formatter that has no state, what becomes of a file,
and what the report says of it, is known from the file alone, and the order of the files does not
matter. -/
namespace FencedCode

namespace Tree

variable (t : Tree) (f : Formatter Unit)

/-- The run on the text of a file, if it can be read. -/
def result? (options : RunOptions) (p : Path) : Option RunResult :=
  match t.readText p with
  | .error _ => none
  | .ok text => (formatDocument f options text ()).1.toOption

/-- Whether a path is in the report as that of a changed file. -/
def isChanged (options : UpdateOptions) (p : Path) : Bool :=
  (t.result? f options.run p).any (·.modified) && (options.checkOnly || t.isWritable p)

/-- The content that is written to a file. -/
def newContent? (options : UpdateOptions) (p : Path) : Option Bytes :=
  if options.checkOnly || !t.isWritable p then none
  else ((t.result? f options.run p).filter (·.modified)).map (·.text.utf8)

/-- The errors for a file: one if it cannot be read, else those of its blocks, and one more if it
ought to be written and cannot be. -/
def errorCount (options : UpdateOptions) (p : Path) : Nat :=
  match t.result? f options.run p with
  | none => 1
  | some r => r.errors.length + if r.modified && !options.checkOnly && !t.isWritable p then 1 else 0

end Tree

/-- Every file has been dealt with by itself. -/
structure UpdatesEach (f : Formatter Unit) (options : UpdateOptions) (paths : List Path) (t : Tree)
    (r : UpdateReport) (t' : Tree) : Prop where
  content : ∀ p ∈ paths, t'.file? p =
    (t.file? p).map fun x => { x with content := (t.newContent? f options p).getD x.content }
  elsewhere : ∀ place, (∀ p ∈ paths, ∀ x ∈ t.file? p, x.place ≠ place) →
    t'.get? place = t.get? place
  changed : r.changed = paths.filter (t.isChanged f options)
  errors : r.errors = (paths.map (t.errorCount f options)).sum

namespace FileUpdate

variable (f : Formatter Unit) {options : UpdateOptions} (t : Tree)

theorem ofPaths_unit (options : UpdateOptions) (paths : List Path) :
    ofPaths f options t paths () = paths.map fun p => ofPath f options t p () := by
  induction paths with
  | nil => rfl
  | cons p ps ih => rw [ofPaths, List.map_cons, ← ih]

theorem ofPath_unit (hv : options.run.format.validate = .ok ()) (p : Path) :
    (ofPath f options t p ()).content? = t.newContent? f options p ∧
      (ofPath f options t p ()).changed = t.isChanged f options p ∧
      (ofPath f options t p ()).errors = t.errorCount f options p := by
  obtain ⟨e, ht, hx⟩ | ⟨text, r, s', ht, hf, hx⟩ := ofPath_cases f options t p () hv
  · rw [hx]
    have hr : t.result? f options.run p = none := by rw [Tree.result?, ht]
    simp [unreadable, Tree.newContent?, Tree.isChanged, Tree.errorCount, hr]
  · rw [hx]
    have hr : t.result? f options.run p = some r := by simp [Tree.result?, ht, hf, Except.toOption]
    refine ⟨?_, ?_, ?_⟩
    · cases hm : r.modified <;> cases hk : options.checkOnly <;> cases hw : t.isWritable p <;>
        simp [ofResult, Tree.newContent?, hr, hm, hk, hw, Option.filter]
    · simp [ofResult, Tree.isChanged, hr]
    · simp [ofResult, Tree.errorCount, hr]

end FileUpdate

open FileUpdate

variable {f : Formatter Unit} {options : UpdateOptions} {paths qs : List Path} {w : Workspace Unit}

theorem exists_updatesEach (hv : options.run.format.validate = .ok ()) (hd : w.tree.Distinct paths)
    (hc : w.console.Unlimited) :
    ∃ r w', (updateFiles f options paths).run w = (.ok r, w') ∧
      UpdatesEach f options paths w.tree r w'.tree := by
  have hx := ofPaths_unit f w.tree options paths
  refine ⟨_, _, run_updateFiles_unlimited f options hv hd hc hx rfl, ?_⟩
  have hpw := pairwise_ofPaths f options hd ()
  rw [hx] at hpw
  constructor
  · intro p hp
    have h := file?_treeAfter hpw (List.mem_map_of_mem hp)
    rwa [path_ofPath, (ofPath_unit f w.tree hv p).1] at h
  · intro place h
    apply get?_treeAfter_of_ne
    intro x hx _
    obtain ⟨p, hp, rfl⟩ := List.mem_map.1 hx
    rw [path_ofPath]
    exact h p hp
  · have hpath : (path ∘ fun p => ofPath f options w.tree p ()) = id :=
      funext fun p => path_ofPath p ()
    have hchanged : (FileUpdate.changed ∘ fun p => ofPath f options w.tree p ()) =
        w.tree.isChanged f options :=
      funext fun p => (ofPath_unit f w.tree hv p).2.1
    rw [reportAfter_eq, List.filter_map, List.map_map, hpath, hchanged, List.map_id]
    rfl
  · have herrors : (FileUpdate.errors ∘ fun p => ofPath f options w.tree p ()) =
        w.tree.errorCount f options :=
      funext fun p => (ofPath_unit f w.tree hv p).2.2
    rw [reportAfter_eq, List.map_map, herrors]
    exact Nat.zero_add _

namespace UpdatesEach

variable {t t' u : Tree} {r r' : UpdateReport}

theorem get?_eq_of_perm (h : UpdatesEach f options paths t r t')
    (h' : UpdatesEach f options qs t r' u) (hp : qs.Perm paths) (place : Place) :
    u.get? place = t'.get? place := by
  by_cases hn : ∃ p ∈ paths, ∃ x ∈ t.file? p, x.place = place
  · obtain ⟨p, hm, x, hx, rfl⟩ := hn
    have ht := h.content p hm
    have hu := h'.content p (hp.mem_iff.2 hm)
    rw [Option.mem_def.1 hx, Option.map_some, Tree.file?_eq_some_iff] at ht hu
    exact hu.2.trans ht.2.symm
  · have hne : ∀ p ∈ paths, ∀ x ∈ t.file? p, x.place ≠ place :=
      fun p hm x hx he => hn ⟨p, hm, x, hx, he⟩
    rw [h.elsewhere place hne, h'.elsewhere place fun q hq => hne q (hp.mem_iff.1 hq)]

theorem errors_eq_of_perm (h : UpdatesEach f options paths t r t')
    (h' : UpdatesEach f options qs t r' u) (hp : qs.Perm paths) : r'.errors = r.errors := by
  rw [h.errors, h'.errors]
  exact (hp.map _).sum_nat

theorem exitFailure_iff_exists (h : UpdatesEach f options paths t r t') (skip : Bool) :
    r.exitFailure skip ↔
      ∃ p ∈ paths, t.isChanged f options p ∨ 0 < t.errorCount f options p ∧ skip = false := by
  have hc : r.changed ≠ [] ↔ ∃ p ∈ paths, t.isChanged f options p := by
    rw [h.changed]
    simp [List.filter_eq_nil_iff]
  have he : 0 < r.errors ↔ ∃ p ∈ paths, 0 < t.errorCount f options p := by
    rw [h.errors, List.sum_pos_iff_exists_pos_nat]
    simp
  simp only [UpdateReport.exitFailure, Bool.or_eq_true, Bool.not_eq_true',
    List.isEmpty_eq_false_iff, hc, Bool.and_eq_true, decide_eq_true_eq, he]
  constructor
  · rintro (⟨p, hp, hm⟩ | ⟨⟨p, hp, hm⟩, hs⟩)
    · exact ⟨p, hp, .inl hm⟩
    · exact ⟨p, hp, .inr ⟨hm, hs⟩⟩
  · rintro ⟨p, hp, hm | ⟨hm, hs⟩⟩
    · exact .inl ⟨p, hp, hm⟩
    · exact .inr ⟨⟨p, hp, hm⟩, hs⟩

/-- If nothing hinders the update, it fails as soon as the run on one of the files does. -/
theorem exitFailure_iff (h : UpdatesEach f options paths t r t')
    (hall : ∀ p ∈ paths, (t.result? f options.run p).isSome ∧ t.isWritable p) :
    r.exitFailure options.run.skipErrors ↔
      ∃ p ∈ paths, ∃ res ∈ t.result? f options.run p, options.run.isFailure res := by
  rw [h.exitFailure_iff_exists]
  refine exists_congr fun p => and_congr_right fun hp => ?_
  obtain ⟨hs, hw⟩ := hall p hp
  obtain ⟨res, hres⟩ := Option.isSome_iff_exists.1 hs
  simp [Tree.isChanged, Tree.errorCount, hres, hw, RunOptions.isFailure, RunResult.exitFailure,
    List.length_pos_iff]

end UpdatesEach

/-- An update gives a report and deals with every file by itself, in whatever order. -/
theorem updateFiles_independent (f : Formatter Unit) (options : UpdateOptions) (paths : List Path)
    (w : Workspace Unit) (hv : options.run.format.validate = .ok ())
    (hd : w.tree.Distinct paths) (hc : w.console.Unlimited) :
    ∃ r w', (updateFiles f options paths).run w = (.ok r, w') ∧
      UpdatesEach f options paths w.tree r w'.tree ∧
      (∀ qs, qs.Perm paths → ∃ r' u, (updateFiles f options qs).run w = (.ok r', u) ∧
        (∀ place, u.tree.get? place = w'.tree.get? place) ∧ r'.errors = r.errors ∧
        r'.changed = qs.filter (w.tree.isChanged f options)) ∧
      ((∀ p ∈ paths, (w.tree.result? f options.run p).isSome ∧ w.tree.isWritable p) →
        (r.exitFailure options.run.skipErrors ↔
          ∃ p ∈ paths, ∃ res ∈ w.tree.result? f options.run p, options.run.isFailure res)) := by
  obtain ⟨r, w', hr, h⟩ := exists_updatesEach (f := f) hv hd hc
  refine ⟨r, w', hr, h, ?_, h.exitFailure_iff⟩
  intro qs hp
  have hdq : w.tree.Distinct qs := (hp.pairwise_iff fun h => h.symm).2 hd
  obtain ⟨r', u, hr', h'⟩ := exists_updatesEach (f := f) hv hdq hc
  exact ⟨r', u, hr', h.get?_eq_of_perm h' hp, h.errors_eq_of_perm h' hp, h'.changed⟩

/-- Refuses a source with a bracket, and writes the same code for every other one. -/
def fussy : Formatter Unit :=
  .pure fun source _ =>
    if '(' ∈ source then .error (.failed "bracket") else .ok "x = 1\n".toList

/-- A file for every mishap: one that is not text, one that nobody may read, one that nobody may
write and which has an error too. -/
def mixedWorkspace : Workspace Unit where
  tree := { entries := [
    (["a.md".toList], .file (Text.utf8 "```py\nx=1\n```\n".toList) {}),
    (["c.md".toList], .file [0x41, 0xff] {}),
    (["d.md".toList], .file [] { readable := false }),
    (["e.md".toList],
      .file (Text.utf8 "```py\nx=1\n```\n~~~py\nf(\n~~~\n".toList) { writable := false })] }
  console := { threshold := some .debug }
  formatter := ()

/-- The second of the paths leads nowhere. -/
def mixedPaths : List Path := ["a.md", "b.md", "c.md", "d.md", "e.md"].map String.toList

theorem updateFiles_independent_mixedWorkspace :
    (({} : UpdateOptions).run.format.validate = .ok () ∧
        mixedWorkspace.tree.Distinct mixedPaths ∧ mixedWorkspace.console.Unlimited) ∧
      ∃ r w', (updateFiles fussy {} mixedPaths).run mixedWorkspace = (.ok r, w') ∧
        UpdatesEach fussy {} mixedPaths mixedWorkspace.tree r w'.tree ∧
        (∀ qs, qs.Perm mixedPaths → ∃ r' u,
          (updateFiles fussy {} qs).run mixedWorkspace = (.ok r', u) ∧
          (∀ place, u.tree.get? place = w'.tree.get? place) ∧ r'.errors = r.errors ∧
          r'.changed = qs.filter (mixedWorkspace.tree.isChanged fussy {})) ∧
        ((∀ p ∈ mixedPaths, (mixedWorkspace.tree.result? fussy {} p).isSome ∧
            mixedWorkspace.tree.isWritable p) →
          (r.exitFailure false ↔ ∃ p ∈ mixedPaths,
            ∃ res ∈ mixedWorkspace.tree.result? fussy {} p, ({} : RunOptions).isFailure res)) := by
  have hd : mixedWorkspace.tree.Distinct mixedPaths := by decide +kernel
  exact ⟨⟨rfl, hd, rfl, rfl⟩,
    updateFiles_independent fussy {} mixedPaths mixedWorkspace rfl hd ⟨rfl, rfl⟩⟩

end FencedCode
