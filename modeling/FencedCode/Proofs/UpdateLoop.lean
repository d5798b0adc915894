import FencedCode.Proofs.Updating
import Mathlib.Algebra.GroupWithZero.Nat

/-! Updates of several files. As no two paths lead to the same file, all that is done can be read
off the tree as it was at the start. -/
namespace FencedCode

variable {σ : Type}

namespace FileUpdate

/-- The updates of the files that paths lead to. Each finds the formatter as the one before has left
it. -/
def ofPaths (f : Formatter σ) (options : UpdateOptions) (t : Tree) :
    List Path → σ → List (FileUpdate σ)
  | [], _ => []
  | p :: ps, s =>
    ofPath f options t p s :: ofPaths f options t ps (ofPath f options t p s).formatter

/-- Carries updates out up to the first one that fails. -/
def performAll : List (FileUpdate σ) → UpdateReport → Workspace σ →
    Except Failure UpdateReport × Workspace σ
  | [], r, w => (.ok r, w)
  | x :: xs, r, w =>
    match x.perform r w with
    | (.ok r, w) => performAll xs r w
    | (.error e, w) => (.error e, w)

/-- The updates that are begun. -/
def reached : List (FileUpdate σ) → UpdateReport → Workspace σ → List (FileUpdate σ)
  | [], _, _ => []
  | x :: xs, r, w =>
    match x.perform r w with
    | (.ok r, w) => x :: reached xs r w
    | (.error _, _) => [x]

def treeAfter (t : Tree) (xs : List (FileUpdate σ)) : Tree := xs.foldl (fun t x => x.tree t) t

def formatterAfter (s : σ) (xs : List (FileUpdate σ)) : σ := xs.foldl (fun _ x => x.formatter) s

def reportAfter (r : UpdateReport) (xs : List (FileUpdate σ)) : UpdateReport :=
  xs.foldl (fun r x => x.report r) r

section Trees

variable {x : FileUpdate σ} {t : Tree}

theorem sameShape_tree (x : FileUpdate σ) (t : Tree) : t.SameShape (x.tree t) := by
  unfold tree
  cases x.content? with
  | none => exact .refl t
  | some content => exact t.sameShape_refill x.path content

theorem file?_tree_of_apart {q : Path} (h : t.Apart x.path q) : (x.tree t).file? q = t.file? q := by
  unfold tree
  cases x.content? with
  | none => rfl
  | some content => exact h.file?_refill content

theorem file?_tree_self (x : FileUpdate σ) (t : Tree) :
    (x.tree t).file? x.path =
      (t.file? x.path).map fun y => { y with content := x.content?.getD y.content } := by
  unfold tree
  cases x.content? with
  | none => simp
  | some content => exact Tree.file?_refill_self content

theorem get?_tree_of_ne {place : Place}
    (h : x.content?.isSome → ∀ y ∈ t.file? x.path, y.place ≠ place) :
    (x.tree t).get? place = t.get? place := by
  unfold tree
  cases hc : x.content? with
  | none => rfl
  | some content =>
    simp only
    cases hy : t.file? x.path with
    | none => rw [Tree.refill, hy]
    | some y => rw [Tree.get?_refill hy, if_neg (h (by simp [hc]) y hy).symm]

theorem file?_treeAfter_of_apart {xs : List (FileUpdate σ)} {q : Path}
    (h : ∀ x ∈ xs, t.Apart x.path q) : (treeAfter t xs).file? q = t.file? q := by
  induction xs generalizing t with
  | nil => rfl
  | cons x xs ih =>
    have hx := h x List.mem_cons_self
    have hxs : ∀ y ∈ xs, (x.tree t).Apart y.path q := fun y hy =>
      (sameShape_tree x t).apart (h y (List.mem_cons_of_mem x hy))
    exact (ih hxs).trans (file?_tree_of_apart hx)

/-- A place stays as it is if no path of a file with a new content leads to it. -/
theorem get?_treeAfter_of_ne {xs : List (FileUpdate σ)} {place : Place}
    (h : ∀ x ∈ xs, x.content?.isSome → ∀ y ∈ t.file? x.path, y.place ≠ place) :
    (treeAfter t xs).get? place = t.get? place := by
  induction xs generalizing t with
  | nil => rfl
  | cons x xs ih =>
    have hxs : ∀ z ∈ xs, z.content?.isSome → ∀ y ∈ (x.tree t).file? z.path, y.place ≠ place := by
      intro z hz hc y hy
      obtain ⟨y', hy', hp⟩ := (sameShape_tree x t).exists_file hy
      exact hp ▸ h z (List.mem_cons_of_mem x hz) hc y' hy'
    exact (ih hxs).trans (get?_tree_of_ne (h x List.mem_cons_self))

/-- The final content of a file is settled by its own update. -/
theorem file?_treeAfter {xs : List (FileUpdate σ)}
    (hd : xs.Pairwise fun x y => t.Apart x.path y.path) {x : FileUpdate σ} (hx : x ∈ xs) :
    (treeAfter t xs).file? x.path =
      (t.file? x.path).map fun y => { y with content := x.content?.getD y.content } := by
  induction xs generalizing t with
  | nil => contradiction
  | cons z xs ih =>
    obtain ⟨hz, hd⟩ := List.pairwise_cons.1 hd
    rcases List.mem_cons.1 hx with rfl | hx
    · have hxs : ∀ y ∈ xs, (x.tree t).Apart y.path x.path := fun y hy =>
        (sameShape_tree x t).apart (hz y hy).symm
      exact (file?_treeAfter_of_apart hxs).trans (file?_tree_self x t)
    · have hs := sameShape_tree z t
      rw [← file?_tree_of_apart (hz x hx)]
      exact ih (hd.imp fun h => hs.apart h) hx

end Trees

variable {f : Formatter σ} {options : UpdateOptions} {t : Tree}

theorem path_ofPath (p : Path) (s : σ) : (ofPath f options t p s).path = p := by
  unfold ofPath
  split
  · rfl
  · split <;> rfl

theorem map_path_ofPaths (paths : List Path) (s : σ) :
    (ofPaths f options t paths s).map path = paths := by
  induction paths generalizing s with
  | nil => rfl
  | cons p ps ih => rw [ofPaths, List.map_cons, path_ofPath, ih]

theorem path_mem_of_mem_ofPaths {paths : List Path} {s : σ} {x : FileUpdate σ}
    (h : x ∈ ofPaths f options t paths s) : x.path ∈ paths := by
  have hx := List.mem_map_of_mem (f := path) h
  rwa [map_path_ofPaths] at hx

theorem pairwise_ofPaths (f : Formatter σ) (options : UpdateOptions) {paths : List Path}
    (hd : t.Distinct paths) (s : σ) :
    (ofPaths f options t paths s).Pairwise fun x y => t.Apart x.path y.path := by
  rw [← List.pairwise_map (f := path) (R := t.Apart), map_path_ofPaths]
  exact hd

theorem ofPath_congr {u : Tree} {p : Path} (h : t.SameShape u) (hf : u.file? p = t.file? p)
    (s : σ) : ofPath f options u p s = ofPath f options t p s := by
  unfold ofPath Tree.isWritable
  rw [h.readText_eq hf, hf]

theorem ofPaths_append (ps qs : List Path) (s : σ) :
    ofPaths f options t (ps ++ qs) s =
      ofPaths f options t ps s ++
        ofPaths f options t qs (formatterAfter s (ofPaths f options t ps s)) := by
  induction ps generalizing s with
  | nil => rfl
  | cons p ps ih => rw [List.cons_append, ofPaths, ih, ofPaths, List.cons_append]; rfl

/-- What comes later does not matter to a file. -/
theorem file?_treeAfter_append {ps qs : List Path} {q : Path} (hd : t.Distinct (ps ++ qs))
    (hq : q ∈ ps) (s : σ) :
    (treeAfter t (ofPaths f options t (ps ++ qs) s)).file? q =
      (treeAfter t (ofPaths f options t ps s)).file? q := by
  obtain ⟨x, hx, rfl⟩ : ∃ x ∈ ofPaths f options t ps s, x.path = q := by
    rw [← List.mem_map, map_path_ofPaths]
    exact hq
  have hall : x ∈ ofPaths f options t (ps ++ qs) s := by
    rw [ofPaths_append]
    exact List.mem_append_left _ hx
  have hps : t.Distinct ps := (List.pairwise_append.1 hd).1
  rw [file?_treeAfter (pairwise_ofPaths f options hd s) hall,
    file?_treeAfter (pairwise_ofPaths f options hps s) hx]

theorem exists_of_ofPaths_eq_append {paths : List Path} {s : σ} {x : FileUpdate σ}
    {before after : List (FileUpdate σ)}
    (h : ofPaths f options t paths s = before ++ x :: after) :
    ∃ ps p qs, paths = ps ++ p :: qs ∧ before = ofPaths f options t ps s ∧
      x = ofPath f options t p (formatterAfter s before) := by
  induction before generalizing paths s with
  | nil =>
    cases paths with
    | nil => contradiction
    | cons p ps => exact ⟨[], p, ps, rfl, rfl, (List.cons.inj h).1.symm⟩
  | cons y before ih =>
    cases paths with
    | nil => contradiction
    | cons p ps =>
      obtain ⟨hy, h⟩ := List.cons.inj h
      obtain ⟨ps, q, qs, rfl, hb, hx⟩ := ih h
      refine ⟨p :: ps, q, qs, rfl, ?_, ?_⟩
      · rw [ofPaths, ← hb, hy]
      · rw [hx, hy]; rfl

theorem exists_of_mem_ofPaths {paths : List Path} {s : σ} {x : FileUpdate σ}
    (h : x ∈ ofPaths f options t paths s) :
    ∃ ps p qs, paths = ps ++ p :: qs ∧
      x = ofPath f options t p (formatterAfter s (ofPaths f options t ps s)) := by
  obtain ⟨before, after, hx⟩ := List.append_of_mem h
  obtain ⟨ps, p, qs, hp, rfl, hx⟩ := exists_of_ofPaths_eq_append hx
  exact ⟨ps, p, qs, hp, hx⟩

/-- An update is carried out, or it fails before or after the file is replaced. -/
theorem perform_cases (x : FileUpdate σ) (r : UpdateReport) (w : Workspace σ) :
    (∃ c, x.perform r w = (.ok (x.report r), ⟨x.tree w.tree, c, x.formatter⟩)) ∨
      ∃ u c, x.perform r w = (.error .output, ⟨u, c, x.formatter⟩) ∧
        (u = w.tree ∨ u = x.tree w.tree) := by
  unfold perform Workspace.tellAll Workspace.andThen
  by_cases hf : (w.console.tellAll x.first).1
  · simp only [hf, if_true]
    by_cases hl : ((w.console.tellAll x.first).2.tellAll x.last).1
    · simp only [hl, if_true]
      exact .inl ⟨_, rfl⟩
    · simp only [hl, Bool.false_eq_true, if_false]
      exact .inr ⟨_, _, rfl, .inr rfl⟩
  · simp only [hf, Bool.false_eq_true, if_false]
    exact .inr ⟨_, _, rfl, .inl rfl⟩

/-- All updates are carried out, or those before some update are, which fails itself. -/
theorem performAll_cases (xs : List (FileUpdate σ)) (r : UpdateReport) (w : Workspace σ) :
    (∃ c, performAll xs r w =
        (.ok (reportAfter r xs), ⟨treeAfter w.tree xs, c, formatterAfter w.formatter xs⟩) ∧
      reached xs r w = xs) ∨
      ∃ before x after u c, xs = before ++ x :: after ∧ reached xs r w = before ++ [x] ∧
        performAll xs r w = (.error .output, ⟨u, c, x.formatter⟩) ∧
        (u = treeAfter w.tree before ∨ u = treeAfter w.tree (before ++ [x])) := by
  induction xs generalizing r w with
  | nil => exact .inl ⟨w.console, rfl, rfl⟩
  | cons x xs ih =>
    obtain ⟨c, hx⟩ | ⟨u, c, hx, hu⟩ := x.perform_cases r w
    · simp only [performAll, reached, hx]
      obtain ⟨c, ha, hr⟩ | ⟨before, y, after, u, c, rfl, hr, ha, hu⟩ :=
        ih (x.report r) ⟨x.tree w.tree, c, x.formatter⟩
      · exact .inl ⟨c, ha, by rw [hr]⟩
      · exact .inr ⟨x :: before, y, after, u, c, rfl, by rw [hr]; rfl, ha, hu⟩
    · refine .inr ⟨[], x, xs, u, c, rfl, ?_, ?_, hu⟩
      · simp only [reached, hx, List.nil_append]
      · simp only [performAll, hx]

def notices (x : FileUpdate σ) : List Notice := x.first ++ x.last

theorem perform_unlimited {w : Workspace σ} (h : w.console.Unlimited) (x : FileUpdate σ)
    (r : UpdateReport) :
    x.perform r w =
      (.ok (x.report r), ⟨x.tree w.tree, w.console.after x.notices, x.formatter⟩) := by
  have ha : (w.console.after x.first).Unlimited := ⟨h.out, h.err⟩
  simp only [perform, Workspace.tellAll, Workspace.andThen, h.tellAll_eq, ha.tellAll_eq, if_true,
    notices, Console.after_append]

theorem performAll_unlimited {w : Workspace σ} (h : w.console.Unlimited) (xs : List (FileUpdate σ))
    (r : UpdateReport) :
    performAll xs r w =
      (.ok (reportAfter r xs),
        ⟨treeAfter w.tree xs, w.console.after (xs.flatMap notices),
          formatterAfter w.formatter xs⟩) := by
  induction xs generalizing r w with
  | nil => simp [performAll, reportAfter, treeAfter, formatterAfter, Console.after]
  | cons x xs ih =>
    have ha : (w.console.after x.notices).Unlimited := ⟨h.out, h.err⟩
    simp only [performAll, x.perform_unlimited h, List.flatMap_cons, Console.after_append]
    exact ih ha (x.report r)

theorem reached_unlimited {w : Workspace σ} (h : w.console.Unlimited) (xs : List (FileUpdate σ))
    (r : UpdateReport) : reached xs r w = xs := by
  have hp := performAll_unlimited h xs r
  obtain ⟨c, -, hr⟩ | ⟨before, x, after, u, c, -, -, ha, -⟩ := performAll_cases xs r w
  · exact hr
  · rw [ha] at hp
    simp at hp

theorem reportAfter_eq (r : UpdateReport) (xs : List (FileUpdate σ)) :
    reportAfter r xs =
      ⟨r.changed ++ (xs.filter changed).map path, r.errors + (xs.map errors).sum⟩ := by
  induction xs generalizing r with
  | nil => simp [reportAfter]
  | cons x xs ih =>
    have hx : reportAfter r (x :: xs) = reportAfter (x.report r) xs := rfl
    rw [hx, ih, report]
    cases hc : x.changed <;> simp [hc, Nat.add_assoc]

/-- The update with a formatter that adds its calls to a record. -/
def recorded (x : FileUpdate σ) (record : List Text) : FileUpdate (σ × List Text) :=
  { x with formatter := (x.formatter, record ++ x.calls) }

def recordedAll : List (FileUpdate σ) → List Text → List (FileUpdate (σ × List Text))
  | [], _ => []
  | x :: xs, record => x.recorded record :: recordedAll xs (record ++ x.calls)

theorem ofPath_recorded (hv : options.run.format.validate = .ok ()) (p : Path) (s : σ)
    (record : List Text) :
    ofPath f.recorded options t p (s, record) = (ofPath f options t p s).recorded record := by
  obtain ⟨e, ht, hx⟩ | ⟨text, r, s', ht, hf, hx⟩ := ofPath_cases f options t p s hv
  · rw [hx]
    simp [ofPath, ht, unreadable, recorded]
  · have hf' := formatWith_recorded Header.rule f record hf
    rw [hx]
    simp only [ofPath, ht, formatDocument, hf']
    rfl

theorem ofPaths_recorded (hv : options.run.format.validate = .ok ()) (paths : List Path) (s : σ)
    (record : List Text) :
    ofPaths f.recorded options t paths (s, record) =
      recordedAll (ofPaths f options t paths s) record := by
  induction paths generalizing s record with
  | nil => rfl
  | cons p ps ih =>
    rw [ofPaths, ofPath_recorded hv, ofPaths, recordedAll]
    exact congrArg _ (ih _ _)

end FileUpdate

/-- The workspace with a record of the calls beside the state of the formatter. -/
def Workspace.withRecord (w : Workspace σ) (record : List Text) : Workspace (σ × List Text) :=
  ⟨w.tree, w.console, (w.formatter, record)⟩

namespace FileUpdate

theorem perform_recorded (x : FileUpdate σ) (record : List Text) (r : UpdateReport)
    (w : Workspace σ) :
    (x.recorded record).perform r (w.withRecord record) =
      ((x.perform r w).1, (x.perform r w).2.withRecord (record ++ x.calls)) := by
  unfold perform Workspace.tellAll Workspace.andThen Workspace.withRecord
  simp only [recorded]
  by_cases hf : (w.console.tellAll x.first).1
  · by_cases hl : ((w.console.tellAll x.first).2.tellAll x.last).1
    · simp only [hf, hl, if_true]
      rfl
    · simp only [hf, hl, Bool.false_eq_true, if_true, if_false]
      rfl
  · simp only [hf, Bool.false_eq_true, if_false]

theorem performAll_recorded (xs : List (FileUpdate σ)) (record : List Text) (r : UpdateReport)
    (w : Workspace σ) :
    performAll (recordedAll xs record) r (w.withRecord record) =
      ((performAll xs r w).1,
        (performAll xs r w).2.withRecord (record ++ (reached xs r w).flatMap calls)) := by
  induction xs generalizing record r w with
  | nil => simp [performAll, recordedAll, reached]
  | cons x xs ih =>
    simp only [performAll, recordedAll, reached, perform_recorded]
    cases hx : x.perform r w with
    | mk result w' =>
      cases result with
      | ok r' => simp only [ih, List.flatMap_cons, List.append_assoc]
      | error e => simp

end FileUpdate

open FileUpdate UpdateM

/-- One file after the other is updated as the tree at the start tells. -/
theorem run_foldlM_updateFile (f : Formatter σ) {options : UpdateOptions} {t : Tree}
    {paths : List Path} (r : UpdateReport) (w : Workspace σ)
    (hv : options.run.format.validate = .ok ()) (hd : t.Distinct paths)
    (hs : t.SameShape w.tree) (hf : ∀ p ∈ paths, w.tree.file? p = t.file? p) :
    (paths.foldlM (fun r p => updateFile f options p r) r).run w =
      performAll (ofPaths f options t paths w.formatter) r w := by
  induction paths generalizing r w with
  | nil => rfl
  | cons p ps ih =>
    obtain ⟨hp, hd⟩ := List.pairwise_cons.1 hd
    rw [List.foldlM_cons, run_bind, run_updateFile f p r w hv,
      ofPath_congr hs (hf p List.mem_cons_self), ofPaths, performAll]
    obtain ⟨c, hx⟩ | ⟨u, c, hx, -⟩ := (ofPath f options t p w.formatter).perform_cases r w
    · simp only [hx]
      refine ih _ _ hd (hs.trans (sameShape_tree _ _)) fun q hq => ?_
      have ha : w.tree.Apart (ofPath f options t p w.formatter).path q := by
        rw [path_ofPath]
        exact hs.apart (hp q hq)
      exact (file?_tree_of_apart ha).trans (hf q (List.mem_cons_of_mem p hq))
    · simp only [hx]

theorem run_updateFiles (f : Formatter σ) {options : UpdateOptions} {paths : List Path}
    {w : Workspace σ} (hv : options.run.format.validate = .ok ()) (hd : w.tree.Distinct paths) :
    (updateFiles f options paths).run w =
      match performAll (ofPaths f options w.tree paths w.formatter) {} w with
      | (.ok r, w) =>
        w.tellAll
          [.log .debug s!"{paths.length} files, {r.changed.length} rewritten, {r.errors} errors"] r
      | (.error e, w) => (.error e, w) := by
  unfold updateFiles
  simp only [hv]
  rw [run_bind, run_foldlM_updateFile f {} w hv hd (.refl _) fun _ _ => rfl]
  cases performAll (ofPaths f options w.tree paths w.formatter) {} w with
  | mk result w' =>
    cases result with
    | error e => rfl
    | ok r => exact (tells_log _ _).bind_pure r w'

theorem run_updateFiles_unlimited (f : Formatter σ) (options : UpdateOptions) {paths : List Path}
    {w : Workspace σ} (hv : options.run.format.validate = .ok ()) (hd : w.tree.Distinct paths)
    (hc : w.console.Unlimited) {xs : List (FileUpdate σ)}
    (hx : ofPaths f options w.tree paths w.formatter = xs) {r : UpdateReport}
    (hr : reportAfter {} xs = r) :
    (updateFiles f options paths).run w =
      (.ok r,
        ⟨treeAfter w.tree xs,
          w.console.after (xs.flatMap notices ++
            [.log .debug
              s!"{paths.length} files, {r.changed.length} rewritten, {r.errors} errors"]),
          formatterAfter w.formatter xs⟩) := by
  have ha : (w.console.after (xs.flatMap notices)).Unlimited := ⟨hc.out, hc.err⟩
  rw [run_updateFiles f hv hd, hx, performAll_unlimited hc, hr]
  simp only [Workspace.tellAll, Workspace.andThen, ha.tellAll_eq, if_true, Console.after_append]

/-- The sources that the formatter is called with in an update. -/
def updateCalls (f : Formatter σ) (options : UpdateOptions) (paths : List Path) (w : Workspace σ) :
    List Text :=
  ((updateFiles f.recorded options paths).run (w.withRecord [])).2.formatter.2

theorem updateCalls_eq (f : Formatter σ) {options : UpdateOptions} {paths : List Path}
    {w : Workspace σ} (hv : options.run.format.validate = .ok ()) (hd : w.tree.Distinct paths) :
    updateCalls f options paths w =
      (reached (ofPaths f options w.tree paths w.formatter) {} w).flatMap calls := by
  unfold updateCalls
  rw [run_updateFiles f.recorded (w := w.withRecord []) hv hd]
  have hp := ofPaths_recorded (f := f) (t := w.tree) hv paths w.formatter []
  simp only [Workspace.withRecord, hp]
  have hr := performAll_recorded (ofPaths f options w.tree paths w.formatter) [] {} w
  rw [Workspace.withRecord] at hr
  rw [hr]
  cases (performAll (ofPaths f options w.tree paths w.formatter) {} w).1 with
  | error e => rfl
  | ok r => rfl

theorem updateCalls_unlimited (f : Formatter σ) {options : UpdateOptions} {paths : List Path}
    {w : Workspace σ} (hv : options.run.format.validate = .ok ()) (hd : w.tree.Distinct paths)
    (hc : w.console.Unlimited) :
    updateCalls f options paths w =
      (ofPaths f options w.tree paths w.formatter).flatMap calls := by
  rw [updateCalls_eq f hv hd, reached_unlimited hc]

end FencedCode
