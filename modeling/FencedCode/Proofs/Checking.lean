import FencedCode.Proofs.Decoding
import FencedCode.Proofs.UpdateLoop

/-! Updates that only check. Where all files can be written, the check goes through the files as the
real update does, says the same of them and leaves them as they are. -/
namespace FencedCode

open FileUpdate

variable {σ : Type}

/-- How a check, which leaves `w₁`, compares with the update that leaves `w₂`. The error output also
has the log, so that it is the same only where the log keeps to warnings. -/
structure Foretells (f : Formatter σ) (options : RunOptions) (paths : List Path) (w : Workspace σ)
    (r : UpdateReport) (w₁ w₂ : Workspace σ) : Prop where
  err : (∀ level ∈ w.console.threshold, level = .warn) → w₁.console.err = w₂.console.err
  formatter : w₁.formatter = w₂.formatter
  calls : updateCalls f ⟨options, true⟩ paths w = updateCalls f ⟨options, false⟩ paths w
  checking : w₁.console.out.written = w.console.out.written ++
    r.changed.flatMap fun p => Notice.lineBytes s!"{p.toString}: Would rewrite"
  rewriting : w₂.console.out.written = w.console.out.written ++
    r.changed.flatMap fun p => Notice.lineBytes s!"{p.toString}: Rewriting..."
  kept : w₁.tree = w.tree
  replaced : ∀ place, w₂.tree.get? place ≠ w.tree.get? place ↔
    ∃ p ∈ r.changed, ∃ x ∈ w.tree.file? p, x.place = place
  content : ∀ p ∈ r.changed, ∃ before after text res s', paths = before ++ p :: after ∧
    w.tree.readText p = .ok text ∧
    formatDocument f options text ((updateFiles f ⟨options, false⟩ before).run w).2.formatter =
      (.ok res, s') ∧
    w₂.tree.file? p = (w.tree.file? p).map fun x => { x with content := res.text.utf8 }

namespace FileUpdate

/-- The update as a check makes it. -/
def checked (x : FileUpdate σ) : FileUpdate σ :=
  { x with
    content? := none
    last := if x.changed then [.announce s!"{x.path.toString}: Would rewrite"] else [] }

/-- An update that writes what it changes, and says so at the end. -/
structure Rewrites (x : FileUpdate σ) : Prop where
  content : x.content?.isSome = x.changed
  first : x.first.flatMap Notice.outBytes = []
  last : x.last =
    if x.changed then
      [.log .info s!"Rewrote {x.path.toString}", .announce s!"{x.path.toString}: Rewriting..."]
    else []

theorem flatMap_outBytes_notices (r : RunResult) (p : Path) :
    (r.notices p).flatMap Notice.outBytes = [] := by
  simp [RunResult.notices, Notice.outBytes, List.flatMap_map]

variable {f : Formatter σ} {options : RunOptions} {t : Tree}

theorem ofPath_checked {p : Path} (hv : options.format.validate = .ok ())
    (hw : (t.readText p).isOk → t.isWritable p) (s : σ) :
    ofPath f ⟨options, true⟩ t p s = (ofPath f ⟨options, false⟩ t p s).checked ∧
      (ofPath f ⟨options, false⟩ t p s).Rewrites := by
  unfold ofPath
  cases ht : t.readText p with
  | error e =>
    exact ⟨rfl, rfl, rfl, rfl⟩
  | ok text =>
    obtain ⟨r, s', hr, -⟩ := formatWith_eq_ok Header.rule f text s hv
    have hwrite : t.isWritable p = true := hw (by rw [ht]; rfl)
    have hfirst := flatMap_outBytes_notices r p
    simp only [formatDocument, hr, hwrite]
    cases hm : r.modified <;>
      exact ⟨by simp [ofResult, checked, replacementNotices, hm],
        by simp [ofResult, hm], hfirst, by simp [ofResult, replacementNotices, hm]⟩

theorem ofPaths_checked {paths : List Path} (hv : options.format.validate = .ok ())
    (hw : ∀ p ∈ paths, (t.readText p).isOk → t.isWritable p) (s : σ) :
    ofPaths f ⟨options, true⟩ t paths s = (ofPaths f ⟨options, false⟩ t paths s).map checked ∧
      ∀ x ∈ ofPaths f ⟨options, false⟩ t paths s, x.Rewrites := by
  induction paths generalizing s with
  | nil => exact ⟨rfl, fun x hx => absurd hx List.not_mem_nil⟩
  | cons p ps ih =>
    obtain ⟨hp, hr⟩ := ofPath_checked (f := f) hv (hw p List.mem_cons_self) s
    obtain ⟨hps, hrs⟩ := ih (fun q hq => hw q (List.mem_cons_of_mem p hq))
      (ofPath f ⟨options, false⟩ t p s).formatter
    rw [ofPaths, hp, ofPaths, List.map_cons, List.forall_mem_cons]
    exact ⟨congrArg _ hps, hr, hrs⟩

theorem treeAfter_checked (t : Tree) (xs : List (FileUpdate σ)) :
    treeAfter t (xs.map checked) = t := by
  induction xs with
  | nil => rfl
  | cons x xs ih => exact ih

theorem formatterAfter_checked (s : σ) (xs : List (FileUpdate σ)) :
    formatterAfter s (xs.map checked) = formatterAfter s xs := by
  rw [formatterAfter, List.foldl_map]
  rfl

theorem reportAfter_checked (r : UpdateReport) (xs : List (FileUpdate σ)) :
    reportAfter r (xs.map checked) = reportAfter r xs := by
  rw [reportAfter, List.foldl_map]
  rfl

/-- The output gets a line for each changed file. -/
theorem out_after {xs : List (FileUpdate σ)} (line : Path → String)
    (h : ∀ x ∈ xs, x.notices.flatMap Notice.outBytes =
      if x.changed then Notice.lineBytes (line x.path) else [])
    (c : Console) (level : Level) (message : String) :
    (c.after (xs.flatMap notices ++ [.log level message])).out.written =
      c.out.written ++
        (reportAfter {} xs).changed.flatMap fun p => Notice.lineBytes (line p) := by
  have hx : (xs.flatMap notices).flatMap Notice.outBytes =
      ((xs.filter changed).map path).flatMap fun p => Notice.lineBytes (line p) := by
    induction xs with
    | nil => rfl
    | cons x xs ih =>
      obtain ⟨hx, hxs⟩ := List.forall_mem_cons.1 h
      rw [List.flatMap_cons, List.flatMap_append, hx, ih hxs]
      cases hc : x.changed <;> simp [hc]
  simp [Console.after, reportAfter_eq, hx, Notice.outBytes]

theorem Rewrites.outBytes_notices {x : FileUpdate σ} (h : x.Rewrites) :
    x.notices.flatMap Notice.outBytes =
      if x.changed then Notice.lineBytes s!"{x.path.toString}: Rewriting..." else [] := by
  rw [notices, List.flatMap_append, h.first, h.last]
  cases x.changed <;> simp [Notice.outBytes]

theorem Rewrites.outBytes_checked {x : FileUpdate σ} (h : x.Rewrites) :
    x.checked.notices.flatMap Notice.outBytes =
      if x.changed then Notice.lineBytes s!"{x.path.toString}: Would rewrite" else [] := by
  rw [notices, List.flatMap_append]
  have hf : x.checked.first.flatMap Notice.outBytes = [] := h.first
  rw [hf, checked]
  cases x.changed <;> simp [Notice.outBytes]

/-- What the update says to the error output is said by the check too, but for the log. -/
theorem Rewrites.errBytes_checked {x : FileUpdate σ} (h : x.Rewrites) {threshold : Option Level}
    (ht : ∀ level ∈ threshold, level = .warn) :
    x.checked.notices.flatMap (Notice.errBytes threshold) =
      x.notices.flatMap (Notice.errBytes threshold) := by
  have hinfo : ∀ message, Notice.errBytes threshold (.log .info message) = [] := by
    intro message
    cases threshold with
    | none => rfl
    | some level =>
      obtain rfl := ht level rfl
      rfl
  have hannounce : ∀ line, Notice.errBytes threshold (.announce line) = [] := fun line => rfl
  rw [notices, notices, List.flatMap_append, List.flatMap_append, h.last, checked]
  cases x.changed <;> simp [hinfo, hannounce]

/-- A changed file gets the text of its run, whose bytes are not those it had. -/
theorem exists_text_of_changed {p : Path} {s : σ} (hv : options.format.validate = .ok ())
    (hc : (ofPath f ⟨options, false⟩ t p s).changed) :
    ∃ text res s' x, t.readText p = .ok text ∧ formatDocument f options text s = (.ok res, s') ∧
      (ofPath f ⟨options, false⟩ t p s).content? = some res.text.utf8 ∧ t.file? p = some x ∧
      x.content ≠ res.text.utf8 := by
  obtain ⟨e, -, hx⟩ | ⟨text, res, s', ht, hf, hx⟩ :=
    ofPath_cases f ⟨options, false⟩ t p s hv
  · rw [hx] at hc
    contradiction
  · rw [hx] at hc ⊢
    obtain ⟨hm, hw⟩ : res.modified = true ∧ t.isWritable p = true := by
      simpa [ofResult] using hc
    obtain ⟨x, hfile, hdecode⟩ := Tree.exists_file_of_readText ht
    refine ⟨text, res, s', x, ht, hf, by simp [ofResult, hm, hw], hfile, ?_⟩
    intro he
    obtain ⟨res', s'', hf', hm', -⟩ := formatWith_eq_ok Header.rule f text s hv
    obtain ⟨hres, -⟩ := Prod.mk.inj (hf.symm.trans hf')
    obtain rfl := Except.ok.inj hres
    rw [he, Utf8.decode_utf8] at hdecode
    rw [hm, Except.ok.inj hdecode] at hm'
    simp at hm'

theorem exists_text_of_mem_changed {paths : List Path} {s : σ} {p : Path}
    (hv : options.format.validate = .ok ()) (hd : t.Distinct paths)
    (hp : p ∈ ((ofPaths f ⟨options, false⟩ t paths s).filter changed).map path) :
    ∃ before after text res s' x, paths = before ++ p :: after ∧ t.readText p = .ok text ∧
      formatDocument f options text
        (formatterAfter s (ofPaths f ⟨options, false⟩ t before s)) = (.ok res, s') ∧
      t.file? p = some x ∧ x.content ≠ res.text.utf8 ∧
      (treeAfter t (ofPaths f ⟨options, false⟩ t paths s)).file? p =
        some { x with content := res.text.utf8 } := by
  obtain ⟨y, hy, rfl⟩ := List.mem_map.1 hp
  obtain ⟨hmem, hc⟩ := List.mem_filter.1 hy
  have hfile := file?_treeAfter (pairwise_ofPaths f ⟨options, false⟩ hd s) hmem
  obtain ⟨before, q, after, hpaths, rfl⟩ := exists_of_mem_ofPaths hmem
  obtain ⟨text, res, s', x, ht, hf, hcontent, hx, hne⟩ := exists_text_of_changed hv hc
  rw [path_ofPath] at hfile ⊢
  rw [hx, hcontent] at hfile
  exact ⟨before, after, text, res, s', x, hpaths, ht, hf, hx, hne, hfile⟩

/-- The places that differ afterwards are those of the changed files. -/
theorem get?_treeAfter_ne_iff {paths : List Path} {s : σ} (hv : options.format.validate = .ok ())
    (hd : t.Distinct paths) (hrw : ∀ x ∈ ofPaths f ⟨options, false⟩ t paths s, x.Rewrites)
    (place : Place) :
    (treeAfter t (ofPaths f ⟨options, false⟩ t paths s)).get? place ≠ t.get? place ↔
      ∃ p ∈ ((ofPaths f ⟨options, false⟩ t paths s).filter changed).map path,
        ∃ x ∈ t.file? p, x.place = place := by
  constructor
  · intro hne
    by_contra hn
    apply hne
    apply get?_treeAfter_of_ne
    intro y hy hc x hx he
    have hchanged : y.changed = true := (hrw y hy).content ▸ hc
    exact hn ⟨y.path, List.mem_map_of_mem (List.mem_filter.2 ⟨hy, hchanged⟩), x, hx, he⟩
  · rintro ⟨p, hp, x, hx, rfl⟩ he
    obtain ⟨-, -, text, res, s', y, -, -, -, hy, hne, hfile⟩ := exists_text_of_mem_changed hv hd hp
    obtain rfl := Option.some.inj (hx.symm.trans hy)
    have hnew := (Tree.file?_eq_some_iff.1 hfile).2
    rw [he, (Tree.file?_eq_some_iff.1 hy).2] at hnew
    apply hne
    simpa using hnew

theorem err_after_checked {xs : List (FileUpdate σ)} (hrw : ∀ x ∈ xs, x.Rewrites) {c : Console}
    (ht : ∀ level ∈ c.threshold, level = .warn) (n : Notice) :
    (c.after ((xs.map checked).flatMap notices ++ [n])).err =
      (c.after (xs.flatMap notices ++ [n])).err := by
  have hx : (xs.flatMap fun x => x.checked.notices.flatMap (Notice.errBytes c.threshold)) =
      xs.flatMap fun x => x.notices.flatMap (Notice.errBytes c.threshold) :=
    List.flatMap_congr fun x hx => (hrw x hx).errBytes_checked ht
  simp only [Console.after, List.flatMap_append, List.flatMap_assoc, List.flatMap_map, hx]

end FileUpdate

theorem Tree.isOk_write_iff {t : Tree} {p : Path} (hr : (t.readText p).isOk) (content : Bytes) :
    (t.write p content).isOk ↔ t.isWritable p := by
  cases ht : t.readText p with
  | error e =>
    rw [ht] at hr
    contradiction
  | ok text =>
    obtain ⟨x, hx, -⟩ := exists_file_of_readText ht
    rw [write_eq hx, isWritable, hx]
    cases hw : x.access.writable <;> simp [hw, Except.isOk, Except.toBool]

/-- A check gives the report of the real update and leaves everything as it is. -/
theorem updateFiles_foretold (f : Formatter σ) (options : RunOptions) (paths : List Path)
    (w : Workspace σ) (hv : options.format.validate = .ok ()) (hd : w.tree.Distinct paths)
    (hc : w.console.Unlimited)
    (hw : ∀ p ∈ paths, (w.tree.readText p).isOk → ∀ content, (w.tree.write p content).isOk) :
    ∃ r w₁ w₂, (updateFiles f ⟨options, true⟩ paths).run w = (.ok r, w₁) ∧
      (updateFiles f ⟨options, false⟩ paths).run w = (.ok r, w₂) ∧
      Foretells f options paths w r w₁ w₂ := by
  obtain ⟨hx, hrw⟩ := ofPaths_checked (f := f) (t := w.tree) hv
    (fun p hp hr => (Tree.isOk_write_iff hr []).1 (hw p hp hr [])) w.formatter
  have hreal := run_updateFiles_unlimited f ⟨options, false⟩ hv hd hc rfl rfl
  have hcheck := run_updateFiles_unlimited f ⟨options, true⟩ hv hd hc hx
    (reportAfter_checked {} _)
  refine ⟨_, _, _, hcheck, hreal, ?_⟩
  constructor
  · intro ht
    exact err_after_checked hrw ht _
  · exact formatterAfter_checked _ _
  · rw [updateCalls_unlimited f hv hd hc, updateCalls_unlimited f hv hd hc, hx, List.flatMap_map]
    rfl
  · rw [← reportAfter_checked]
    apply out_after fun p => s!"{p.toString}: Would rewrite"
    intro y hy
    obtain ⟨x, hx, rfl⟩ := List.mem_map.1 hy
    exact (hrw x hx).outBytes_checked
  · apply out_after fun p => s!"{p.toString}: Rewriting..."
    intro x hx
    exact (hrw x hx).outBytes_notices
  · exact treeAfter_checked _ _
  · intro place
    rw [reportAfter_eq]
    exact get?_treeAfter_ne_iff hv hd hrw place
  · intro p hp
    rw [reportAfter_eq] at hp
    obtain ⟨before, after, text, res, s', x, rfl, ht, hf, hx, -, hfile⟩ :=
      exists_text_of_mem_changed hv hd hp
    have hdb : w.tree.Distinct before := (List.pairwise_append.1 hd).1
    have hb := run_updateFiles_unlimited f ⟨options, false⟩ hv hdb hc rfl rfl
    refine ⟨before, after, text, res, s', rfl, ht, ?_, ?_⟩
    · rw [hb]
      exact hf
    · rw [hx]
      exact hfile

/-- Two files to change, one with an error in its last block, one that is not there, one without
code, and one that is not text and could not be written either. -/
def shelf : Workspace (List (Except FormatError Text)) where
  tree := { entries := [
    (["a.md".toList], .file (Text.utf8 "```py\na\n```\n~~~py\n(\n~~~\n".toList) {}),
    (["c.md".toList], .file (Text.utf8 "c\n".toList) {}),
    (["d.md".toList], .file [0xc3] { writable := false }),
    (["e.md".toList], .file (Text.utf8 "```py\ne\n```\n".toList) {})] }
  console := { threshold := some .warn }
  formatter := [.ok "b\n".toList, .error (.unparsable 1 2 "eof"), .ok "f\n".toList]

def shelfPaths : List Path := ["a.md", "b.md", "c.md", "d.md", "./e.md"].map String.toList

theorem updateFiles_foretold_shelf :
    (({} : RunOptions).format.validate = .ok () ∧ shelf.tree.Distinct shelfPaths ∧
        shelf.console.Unlimited ∧ ∀ p ∈ shelfPaths, (shelf.tree.readText p).isOk →
          ∀ content, (shelf.tree.write p content).isOk) ∧
      ∃ r w₁ w₂, (updateFiles .prepared ⟨{}, true⟩ shelfPaths).run shelf = (.ok r, w₁) ∧
        (updateFiles .prepared ⟨{}, false⟩ shelfPaths).run shelf = (.ok r, w₂) ∧
        Foretells .prepared {} shelfPaths shelf r w₁ w₂ := by
  have hd : shelf.tree.Distinct shelfPaths := by decide +kernel
  have hw : ∀ p ∈ shelfPaths, (shelf.tree.readText p).isOk →
      ∀ content, (shelf.tree.write p content).isOk := by
    have hp : ∀ p ∈ shelfPaths, (shelf.tree.readText p).isOk → shelf.tree.isWritable p := by
      decide +kernel
    intro p hm hr content
    exact (Tree.isOk_write_iff hr content).2 (hp p hm hr)
  exact ⟨⟨rfl, hd, ⟨rfl, rfl⟩, hw⟩,
    updateFiles_foretold .prepared {} shelfPaths shelf rfl hd ⟨rfl, rfl⟩ hw⟩

end FencedCode
