import FencedCode.Proofs.UpdateLoop

/-! Updates that stop early. When a stream takes no more, the files before some file have been
updated, that file is the old one or the new one as a whole, and the files after it have not been
looked at. -/
namespace FencedCode

open FileUpdate

variable {σ : Type}

def Workspace.unlimited (w : Workspace σ) : Workspace σ :=
  { w with console := w.console.unlimited }

theorem Workspace.unlimited_console (w : Workspace σ) : w.unlimited.console.Unlimited := ⟨rfl, rfl⟩

/-- How an update ends if the streams take everything. -/
def unlimitedRun (f : Formatter σ) (options : UpdateOptions) (paths : List Path) (w : Workspace σ) :
    Except Failure UpdateReport × Workspace σ :=
  (updateFiles f options paths).run w.unlimited

/-- What is left by an update of files that stops at one of them, with those `before` and those
`after` it. -/
structure StoppedAt (f : Formatter σ) (options : UpdateOptions) (w w' : Workspace σ)
    (before : List Path) (p : Path) (after : List Path) : Prop where
  succeeds : ∃ r, (unlimitedRun f options (before ++ p :: after) w).1 = .ok r
  updated : ∀ q ∈ before,
    w'.tree.file? q = (unlimitedRun f options (before ++ p :: after) w).2.tree.file? q
  whole : w'.tree.file? p = w.tree.file? p ∨
    ∃ text r s', w.tree.readText p = .ok text ∧
      formatDocument f options.run text (unlimitedRun f options before w).2.formatter =
        (.ok r, s') ∧
      w'.tree.file? p = (w.tree.file? p).map fun x => { x with content := r.text.utf8 }
  untouched : ∀ q ∈ after, w'.tree.file? q = w.tree.file? q
  elsewhere : ∀ place, (∀ q ∈ before ++ [p], ∀ x ∈ w.tree.file? q, x.place ≠ place) →
    w'.tree.get? place = w.tree.get? place
  formatter : w'.formatter = (unlimitedRun f options (before ++ [p]) w).2.formatter
  calls : updateCalls f options (before ++ p :: after) w =
    updateCalls f options (before ++ [p]) w.unlimited

namespace FileUpdate

/-- A new content is always the whole text of a run. -/
theorem content?_ofPath (f : Formatter σ) {options : UpdateOptions} (t : Tree) (p : Path) (s : σ)
    (hv : options.run.format.validate = .ok ()) :
    (ofPath f options t p s).content? = none ∨
      ∃ text r s', t.readText p = .ok text ∧ formatDocument f options.run text s = (.ok r, s') ∧
        (ofPath f options t p s).content? = some r.text.utf8 := by
  obtain ⟨e, ht, hx⟩ | ⟨text, r, s', ht, hf, hx⟩ := ofPath_cases f options t p s hv
  · rw [hx]
    exact .inl rfl
  · by_cases hc : (r.modified && !options.checkOnly && t.isWritable p) = true
    · refine .inr ⟨text, r, s', ht, hf, ?_⟩
      rw [hx]
      exact if_pos hc
    · rw [hx]
      exact .inl (if_neg hc)

end FileUpdate

variable {f : Formatter σ} {options : UpdateOptions} {w : Workspace σ} {paths : List Path}

theorem unlimitedRun_eq (hv : options.run.format.validate = .ok ()) (hd : w.tree.Distinct paths) :
    ∃ c, unlimitedRun f options paths w =
      (.ok (reportAfter {} (ofPaths f options w.tree paths w.formatter)),
        ⟨treeAfter w.tree (ofPaths f options w.tree paths w.formatter), c,
          formatterAfter w.formatter (ofPaths f options w.tree paths w.formatter)⟩) :=
  ⟨_, run_updateFiles_unlimited f options (w := w.unlimited) hv hd w.unlimited_console rfl rfl⟩

/-- The file at which an update stops is the old one or the new one. -/
theorem file?_treeAfter_last {ps : List Path} {p : Path} {ys : List (FileUpdate σ)} {s : σ}
    (hv : options.run.format.validate = .ok ()) (hd : w.tree.Distinct (ps ++ [p]))
    (hs : s = formatterAfter w.formatter (ofPaths f options w.tree ps w.formatter))
    (hy : ys = ofPaths f options w.tree ps w.formatter ∨
      ys = ofPaths f options w.tree (ps ++ [p]) w.formatter) :
    (treeAfter w.tree ys).file? p = w.tree.file? p ∨
      ∃ text r s', w.tree.readText p = .ok text ∧
        formatDocument f options.run text s = (.ok r, s') ∧
        (treeAfter w.tree ys).file? p =
          (w.tree.file? p).map fun x => { x with content := r.text.utf8 } := by
  rcases hy with rfl | rfl
  · left
    apply file?_treeAfter_of_apart
    intro y hy
    have hp := path_mem_of_mem_ofPaths hy
    exact (List.pairwise_append.1 hd).2.2 y.path hp p (List.mem_singleton_self p)
  · have hx : ofPath f options w.tree p s ∈ ofPaths f options w.tree (ps ++ [p]) w.formatter := by
      rw [ofPaths_append, ← hs]
      exact List.mem_append_right _ (List.mem_singleton_self _)
    have hfile := file?_treeAfter (pairwise_ofPaths f options hd w.formatter) hx
    rw [path_ofPath] at hfile
    rw [hfile]
    obtain hc | ⟨text, r, s', ht, hf, hc⟩ := content?_ofPath f w.tree p s hv
    · left
      simp [hc]
    · right
      refine ⟨text, r, s', ht, hf, ?_⟩
      simp only [hc, Option.getD_some]

/-- What is left when an update has got to a file and stops there, before or after it is
replaced. -/
theorem stoppedAt_treeAfter {ps qs : List Path} {p : Path} {c : Console} {ys : List (FileUpdate σ)}
    {s : σ} (hv : options.run.format.validate = .ok ()) (hd : w.tree.Distinct (ps ++ p :: qs))
    (hs : s = formatterAfter w.formatter (ofPaths f options w.tree (ps ++ [p]) w.formatter))
    (hr : reached (ofPaths f options w.tree (ps ++ p :: qs) w.formatter) {} w =
      ofPaths f options w.tree (ps ++ [p]) w.formatter)
    (hy : ys = ofPaths f options w.tree ps w.formatter ∨
      ys = ofPaths f options w.tree (ps ++ [p]) w.formatter) :
    StoppedAt f options w ⟨treeAfter w.tree ys, c, s⟩ ps p qs := by
  obtain ⟨hdp, hapart⟩ : w.tree.Distinct (ps ++ [p]) ∧
      ∀ q ∈ ps ++ [p], ∀ q' ∈ qs, w.tree.Apart q q' := by
    have h := hd
    rw [List.append_cons] at h
    exact ⟨(List.pairwise_append.1 h).1, (List.pairwise_append.1 h).2.2⟩
  obtain ⟨c₀, hrun⟩ := unlimitedRun_eq (f := f) hv hd
  obtain ⟨c₁, hrun₁⟩ := unlimitedRun_eq (f := f) hv (List.pairwise_append.1 hd).1
  obtain ⟨c₂, hrun₂⟩ := unlimitedRun_eq (f := f) hv hdp
  -- The updates that were carried out are those of some of the first paths.
  obtain ⟨ps', hsub, hps, hy'⟩ : ∃ ps', ps' <+: ps ++ [p] ∧ ps <+: ps' ∧
      ys = ofPaths f options w.tree ps' w.formatter := by
    rcases hy with hy | hy
    · exact ⟨ps, List.prefix_append ps [p], List.prefix_rfl, hy⟩
    · exact ⟨ps ++ [p], List.prefix_rfl, List.prefix_append ps [p], hy⟩
  have hpath : ∀ y ∈ ys, y.path ∈ ps ++ [p] := by
    intro y hmem
    rw [hy'] at hmem
    exact hsub.subset (path_mem_of_mem_ofPaths hmem)
  constructor
  · exact ⟨_, by rw [hrun]⟩
  · intro q hq
    have hd' : w.tree.Distinct ps' := hdp.sublist hsub.sublist
    obtain ⟨rest, rfl⟩ := hps
    rw [hrun, hy']
    exact (file?_treeAfter_append hd' hq _).trans (file?_treeAfter_append hd hq _).symm
  · rw [hrun₁]
    exact file?_treeAfter_last hv hdp rfl hy
  · intro q hq
    exact file?_treeAfter_of_apart fun y hmem => hapart _ (hpath y hmem) q hq
  · intro place h
    exact get?_treeAfter_of_ne fun y hmem _ => h _ (hpath y hmem)
  · rw [hrun₂]
    exact hs
  · rw [updateCalls_eq f hv hd, hr]
    exact (updateCalls_unlimited f (w := w.unlimited) hv hdp w.unlimited_console).symm

/-- An update that comes to nothing has been refused its options, and then nothing was done, or it
has stopped at a file for want of room in a stream. -/
theorem updateFiles_stopped (f : Formatter σ) (options : UpdateOptions) (paths : List Path)
    (w w' : Workspace σ) (e : Failure) (hd : w.tree.Distinct paths)
    (h : (updateFiles f options paths).run w = (.error e, w')) :
    (∃ refusal, options.run.format.validate = .error refusal ∧
        updateFiles f options paths = throw (.options refusal) ∧ e = .options refusal ∧ w' = w ∧
        updateCalls f options paths w = []) ∨
      (e = .output ∧ ∃ before p after, paths = before ++ p :: after ∧
        StoppedAt f options w w' before p after) := by
  cases hv : options.run.format.validate with
  | error refusal =>
    have hthrow : ∀ {σ : Type} (f : Formatter σ),
        updateFiles f options paths = throw (.options refusal) := by
      intro σ f
      simp only [updateFiles, hv]
    rw [hthrow] at h
    obtain ⟨he, rfl⟩ := Prod.mk.inj h
    refine .inl ⟨refusal, rfl, hthrow f, (Except.error.inj he).symm, rfl, ?_⟩
    rw [updateCalls, hthrow]
    rfl
  | ok u =>
    right
    rw [run_updateFiles f hv hd] at h
    obtain ⟨c, hp, -⟩ | ⟨before, x, after, u, c, hxs, hr, hp, hu⟩ :=
      performAll_cases (ofPaths f options w.tree paths w.formatter) {} w
    · rw [hp] at h
      obtain ⟨he, -⟩ := Prod.mk.inj h
      contradiction
    · rw [hp] at h
      obtain ⟨he, rfl⟩ := Prod.mk.inj h
      obtain ⟨ps, p, qs, rfl, rfl, hx⟩ := exists_of_ofPaths_eq_append hxs
      have hlast : ofPaths f options w.tree (ps ++ [p]) w.formatter =
          ofPaths f options w.tree ps w.formatter ++ [x] := by
        rw [ofPaths_append, hx]
        rfl
      refine ⟨(Except.error.inj he).symm, ps, p, qs, rfl, ?_⟩
      rw [← hlast] at hr hu
      have hs : x.formatter =
          formatterAfter w.formatter (ofPaths f options w.tree (ps ++ [p]) w.formatter) := by
        simp [hlast, formatterAfter]
      rcases hu with rfl | rfl
      · exact stoppedAt_treeAfter hv hd hs hr (.inl rfl)
      · exact stoppedAt_treeAfter hv hd hs hr (.inr rfl)

/-- Writes the same code for every source. -/
def constantly (code : String) : Formatter Unit := .pure fun _ _ => .ok code.toList

/-- Four files with a block each, one of them unreadable, and an output that has room for one line
and a half. -/
def crampedWorkspace : Workspace Unit where
  tree := { entries := [
    (["a.md".toList], .file (Text.utf8 "```py\nx=1\n```\n".toList) {}),
    (["b.md".toList], .file (Text.utf8 "~~~py\n~~~\n".toList) { readable := false }),
    (["c.md".toList], .file (Text.utf8 "# c\n```py\nx =1\n```\n".toList) {}),
    (["d.md".toList], .file (Text.utf8 "```py\nx= 1\n```\n".toList) {})] }
  console := { out := { room := some 30 } }
  formatter := ()

def crampedPaths : List Path := ["a.md", "b.md", "./c.md", "d.md"].map String.toList

/-- What is left when the second line does not fit into the output. -/
def crampedResult : Workspace Unit :=
  ((updateFiles (constantly "x = 1\n") {} crampedPaths).run crampedWorkspace).2

theorem updateFiles_stopped_crampedWorkspace :
    (crampedWorkspace.tree.Distinct crampedPaths ∧
        (updateFiles (constantly "x = 1\n") {} crampedPaths).run crampedWorkspace =
          (.error .output, crampedResult)) ∧
      ((∃ refusal, ({} : UpdateOptions).run.format.validate = .error refusal ∧
          updateFiles (constantly "x = 1\n") {} crampedPaths = throw (.options refusal) ∧
          .output = Failure.options refusal ∧ crampedResult = crampedWorkspace ∧
          updateCalls (constantly "x = 1\n") {} crampedPaths crampedWorkspace = []) ∨
        (Failure.output = .output ∧ ∃ before p after, crampedPaths = before ++ p :: after ∧
          StoppedAt (constantly "x = 1\n") {} crampedWorkspace crampedResult before p after)) := by
  have hd : crampedWorkspace.tree.Distinct crampedPaths := by decide +kernel
  have hrun : (updateFiles (constantly "x = 1\n") {} crampedPaths).run crampedWorkspace =
      (.error .output, crampedResult) :=
    Prod.ext (by decide +kernel) rfl
  exact ⟨⟨hd, hrun⟩, updateFiles_stopped _ _ _ _ _ _ hd hrun⟩

end FencedCode
