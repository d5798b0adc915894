import FencedCode.Proofs.Recording
import FencedCode.Proofs.Trees
import FencedCode.Update

/-! Updates of files, step by step. What the update of a file says, writes and adds to the report is
known from the tree and the state of the formatter alone; the streams only decide how far it
gets. -/
namespace FencedCode

variable {σ α β : Type}

inductive Notice
  | announce (line : String)
  | complain (line : String)
  | log (level : Level) (message : String)
  deriving DecidableEq

namespace Notice

def lineBytes (line : String) : Bytes := Text.utf8 (line.toList ++ ['\n'])

/-- What a notice adds to the output. -/
def outBytes : Notice → Bytes
  | .announce line => lineBytes line
  | _ => []

/-- What a notice adds to the error output, with the log of a console. -/
def errBytes (threshold : Option Level) : Notice → Bytes
  | .announce _ => []
  | .complain line => lineBytes line
  | .log level message => (({ threshold } : Console).log level message).err.written

end Notice

namespace Console

/-- Passes a notice on, and says whether the streams took it. A log that is cut off counts as
taken. -/
def tell (c : Console) : Notice → Bool × Console
  | .announce line => ((c.out.writeLine line).1, { c with out := (c.out.writeLine line).2 })
  | .complain line => ((c.err.writeLine line).1, { c with err := (c.err.writeLine line).2 })
  | .log level message => (true, c.log level message)

/-- Passes notices on up to the first one that is not taken. -/
def tellAll (c : Console) : List Notice → Bool × Console
  | [] => (true, c)
  | n :: ns => if (c.tell n).1 then (c.tell n).2.tellAll ns else (false, (c.tell n).2)

theorem tellAll_append (c : Console) (ns ms : List Notice) :
    c.tellAll (ns ++ ms) =
      if (c.tellAll ns).1 then (c.tellAll ns).2.tellAll ms else c.tellAll ns := by
  induction ns generalizing c with
  | nil => rfl
  | cons n ns ih =>
    rw [List.cons_append, tellAll, tellAll, ih]
    by_cases h : (c.tell n).1 <;> simp [h]

/-- The streams never fail. -/
structure Unlimited (c : Console) : Prop where
  out : c.out.room = none
  err : c.err.room = none

/-- The console with room for everything. -/
def unlimited (c : Console) : Console :=
  { c with out := { c.out with room := none }, err := { c.err with room := none } }

/-- The console after notices all of which it has taken. -/
def after (c : Console) (ns : List Notice) : Console :=
  { c with
    out := { c.out with written := c.out.written ++ ns.flatMap Notice.outBytes }
    err := { c.err with written := c.err.written ++ ns.flatMap (Notice.errBytes c.threshold) } }

theorem after_append (c : Console) (ns ms : List Notice) :
    c.after (ns ++ ms) = (c.after ns).after ms := by
  simp [after]

theorem Unlimited.log_eq {c : Console} (h : c.Unlimited) (level : Level) (message : String) :
    c.log level message = c.after [.log level message] := by
  obtain ⟨out, ⟨room, written⟩, threshold⟩ := c
  obtain rfl : room = none := h.err
  cases threshold with
  | none => simp [log, after, Notice.outBytes, Notice.errBytes]
  | some threshold =>
    by_cases hl : threshold.rank ≤ level.rank <;>
      simp [log, after, Notice.outBytes, Notice.errBytes, Sink.writeLine, Sink.write, hl]

theorem Unlimited.tell_eq {c : Console} (h : c.Unlimited) (n : Notice) :
    c.tell n = (true, c.after [n]) := by
  cases n with
  | announce line =>
    simp [tell, after, Notice.outBytes, Notice.errBytes, Notice.lineBytes, Sink.writeLine,
      Sink.write, h.out]
  | complain line =>
    simp [tell, after, Notice.outBytes, Notice.errBytes, Notice.lineBytes, Sink.writeLine,
      Sink.write, h.err]
  | log level message => rw [tell, h.log_eq]

theorem Unlimited.tellAll_eq {c : Console} (h : c.Unlimited) (ns : List Notice) :
    c.tellAll ns = (true, c.after ns) := by
  induction ns generalizing c with
  | nil => simp [tellAll, after]
  | cons n ns ih =>
    have hn : (c.after [n]).Unlimited := ⟨h.out, h.err⟩
    simp only [tellAll, h.tell_eq, if_true, ih hn]
    rw [← after_append]
    rfl

end Console

namespace Workspace

/-- Passes notices on and goes on from there, unless one of them is not taken. -/
def andThen (w : Workspace σ) (ns : List Notice)
    (k : Workspace σ → Except Failure α × Workspace σ) : Except Failure α × Workspace σ :=
  if (w.console.tellAll ns).1 then k { w with console := (w.console.tellAll ns).2 }
  else (.error .output, { w with console := (w.console.tellAll ns).2 })

/-- Passes notices on and gives a value, unless one of them is not taken. -/
def tellAll (w : Workspace σ) (ns : List Notice) (a : α) : Except Failure α × Workspace σ :=
  w.andThen ns fun w => (.ok a, w)

variable {w : Workspace σ} {k k' : Workspace σ → Except Failure α × Workspace σ}

theorem andThen_append (ns ms : List Notice) :
    w.andThen (ns ++ ms) k = w.andThen ns fun w => w.andThen ms k := by
  unfold andThen
  rw [Console.tellAll_append]
  by_cases h : (w.console.tellAll ns).1 <;> simp [h]

/-- Notices change nothing but the console. -/
theorem andThen_congr (ns : List Notice)
    (h : ∀ c, k { w with console := c } = k' { w with console := c }) :
    w.andThen ns k = w.andThen ns k' := by
  unfold andThen
  rw [h]

end Workspace

namespace UpdateM

theorem run_bind (m : UpdateM σ α) (k : α → UpdateM σ β) (w : Workspace σ) :
    (m >>= k).run w =
      match m.run w with
      | (.ok a, w) => (k a).run w
      | (.error e, w) => (.error e, w) := by
  rw [ExceptT.run_bind]
  cases h : m.run w with
  | mk result w' =>
    simp only [bind, StateT.bind, h]
    cases result <;> rfl

theorem run_get (w : Workspace σ) : (get : UpdateM σ (Workspace σ)).run w = (.ok w, w) := rfl

theorem run_set (w w' : Workspace σ) : (set w' : UpdateM σ PUnit).run w = (.ok ⟨⟩, w') := rfl

/-- A step that gives notices and a value, and does nothing else. -/
def Tells (m : UpdateM σ α) (ns : List Notice) (a : α) : Prop := ∀ w, m.run w = w.tellAll ns a

theorem tells_pure (a : α) : Tells (pure a : UpdateM σ α) [] a := fun _ => rfl

theorem tells_announce (line : String) :
    Tells (announce line : UpdateM σ Unit) [.announce line] () := by
  intro w
  simp only [announce, run_bind, run_get, run_set, Workspace.tellAll, Workspace.andThen,
    Console.tellAll, Console.tell]
  by_cases h : (w.console.out.writeLine line).1
  · simp only [h, if_true]
    rfl
  · simp only [h, Bool.false_eq_true, if_false]
    rfl

theorem tells_complain (line : String) :
    Tells (complain line : UpdateM σ Unit) [.complain line] () := by
  intro w
  simp only [complain, run_bind, run_get, run_set, Workspace.tellAll, Workspace.andThen,
    Console.tellAll, Console.tell]
  by_cases h : (w.console.err.writeLine line).1
  · simp only [h, if_true]
    rfl
  · simp only [h, Bool.false_eq_true, if_false]
    rfl

theorem tells_log (level : Level) (message : String) :
    Tells (log level message : UpdateM σ Unit) [.log level message] () := fun _ => rfl

theorem run_bind_of_tellAll {m : UpdateM σ α} {ns : List Notice} {a : α} {w w' : Workspace σ}
    (hm : m.run w = w'.tellAll ns a) (k : α → UpdateM σ β) :
    (m >>= k).run w = w'.andThen ns fun w => (k a).run w := by
  rw [run_bind, hm, Workspace.tellAll, Workspace.andThen, Workspace.andThen]
  by_cases h : (w'.console.tellAll ns).1 <;> simp only [h, Bool.false_eq_true, if_true, if_false]

theorem Tells.run_bind {m : UpdateM σ α} {ns : List Notice} {a : α} (hm : Tells m ns a)
    (k : α → UpdateM σ β) (w : Workspace σ) :
    (m >>= k).run w = w.andThen ns fun w => (k a).run w :=
  run_bind_of_tellAll (hm w) k

theorem Tells.bind {m : UpdateM σ α} {k : α → UpdateM σ β} {ns ms : List Notice} {a : α} {b : β}
    (hm : Tells m ns a) (hk : Tells (k a) ms b) : Tells (m >>= k) (ns ++ ms) b := by
  intro w
  rw [hm.run_bind, Workspace.tellAll, Workspace.andThen_append]
  exact Workspace.andThen_congr ns fun c => hk _

theorem Tells.bind_pure {m : UpdateM σ α} {ns : List Notice} {a : α} (hm : Tells m ns a) (b : β) :
    Tells (m >>= fun _ => pure b) ns b := by
  have h := hm.bind (k := fun _ => pure b) (tells_pure b)
  rwa [List.append_nil] at h

theorem tells_logs (level : Level) (messages : List String) :
    Tells (messages.forM (log level) : UpdateM σ PUnit) (messages.map (.log level)) ⟨⟩ := by
  induction messages with
  | nil => exact tells_pure _
  | cons m ms ih => exact (tells_log level m).bind ih

theorem tells_reportErrors (p : Path) (errors : List BlockError) (r : UpdateReport) :
    Tells (reportErrors p errors r : UpdateM σ UpdateReport)
      (errors.map fun e => .complain (e.withFilename p).message)
      { r with errors := r.errors + errors.length } := by
  induction errors generalizing r with
  | nil => exact tells_pure r
  | cons e errors ih =>
    rw [reportErrors, List.foldlM_cons, List.length_cons, Nat.add_comm errors.length,
      ← Nat.add_assoc]
    exact ((tells_complain _).bind_pure _).bind (ih r.addError)

end UpdateM

/-- What the update of a file comes to: what is said before its text is replaced, the new content if
it is, what is said then, and what the report and the formatter get from it. -/
structure FileUpdate (σ : Type) where
  path : Path
  first : List Notice := []
  content? : Option Bytes := none
  last : List Notice := []
  changed : Bool := false
  errors : Nat := 0
  calls : List Text := []
  formatter : σ

namespace FileUpdate

def unreadable (p : Path) (e : SystemError) (s : σ) : FileUpdate σ where
  path := p
  first := [.log .warn s!"Skipping {p.toString}: {e.message}",
    .complain s!"{p.toString}: cannot read file: {e.message}"]
  errors := 1
  formatter := s

end FileUpdate

/-- What is said of a run before the text of the file is replaced. -/
def RunResult.notices (r : RunResult) (p : Path) : List Notice :=
  (r.events.filterMap Event.message?).map (.log .debug) ++
    ([.log .debug s!"{p.toString}: {r.blocksSeen} blocks, {r.blocksFormatted} formatted"] ++
      r.errors.map fun e => .complain (e.withFilename p).message)

/-- What is said of a text that is to be replaced. -/
def replacementNotices (checkOnly writable : Bool) (p : Path) : List Notice :=
  if checkOnly then [.announce s!"{p.toString}: Would rewrite"]
  else if writable then
    [.log .info s!"Rewrote {p.toString}", .announce s!"{p.toString}: Rewriting..."]
  else
    let e := SystemError.permissionDenied
    [.log .warn s!"Could not rewrite {p.toString}: {e.message}",
      .complain s!"{p.toString}: cannot write file: {e.message}"]

namespace FileUpdate

def ofResult (checkOnly writable : Bool) (p : Path) (r : RunResult) (s : σ) : FileUpdate σ where
  path := p
  first := r.notices p
  content? := if r.modified && !checkOnly && writable then some r.text.utf8 else none
  last := if r.modified then replacementNotices checkOnly writable p else []
  changed := r.modified && (checkOnly || writable)
  errors := r.errors.length + if r.modified && !checkOnly && !writable then 1 else 0
  calls := r.calls
  formatter := s

/-- The update of the file that a path leads to. Under options that make no sense nothing is
done. -/
def ofPath (f : Formatter σ) (options : UpdateOptions) (t : Tree) (p : Path) (s : σ) :
    FileUpdate σ :=
  match t.readText p with
  | .error e => unreadable p e s
  | .ok text =>
    match formatDocument f options.run text s with
    | (.error _, s) => { path := p, formatter := s }
    | (.ok r, s) => ofResult options.checkOnly (t.isWritable p) p r s

/-- The tree with the file replaced. -/
def tree (x : FileUpdate σ) (t : Tree) : Tree :=
  match x.content? with
  | none => t
  | some content => t.refill x.path content

def report (x : FileUpdate σ) (r : UpdateReport) : UpdateReport :=
  ⟨if x.changed then r.changed ++ [x.path] else r.changed, r.errors + x.errors⟩

/-- Carries the update out as far as the streams let it. -/
def perform (x : FileUpdate σ) (r : UpdateReport) (w : Workspace σ) :
    Except Failure UpdateReport × Workspace σ :=
  Workspace.andThen { w with formatter := x.formatter } x.first fun w =>
    Workspace.tellAll { w with tree := x.tree w.tree } x.last (x.report r)

theorem ofPath_cases (f : Formatter σ) (options : UpdateOptions) (t : Tree) (p : Path) (s : σ)
    (hv : options.run.format.validate = .ok ()) :
    (∃ e, t.readText p = .error e ∧ ofPath f options t p s = unreadable p e s) ∨
      ∃ text r s', t.readText p = .ok text ∧ formatDocument f options.run text s = (.ok r, s') ∧
        ofPath f options t p s = ofResult options.checkOnly (t.isWritable p) p r s' := by
  unfold ofPath
  cases ht : t.readText p with
  | error e => exact .inl ⟨e, rfl, rfl⟩
  | ok text =>
    obtain ⟨r, s', hr, -⟩ := formatWith_eq_ok Header.rule f text s hv
    refine .inr ⟨text, r, s', rfl, hr, ?_⟩
    simp only [formatDocument, hr]

end FileUpdate

open UpdateM

theorem run_format {f : Formatter σ} {options : RunOptions} {text : Text} {r : RunResult} {s' : σ}
    {w : Workspace σ} (h : formatDocument f options text w.formatter = (.ok r, s')) :
    (format f options text).run w =
      Workspace.tellAll { w with formatter := s' }
        ((r.events.filterMap Event.message?).map (.log .debug)) r := by
  simp only [format, run_bind, run_get, run_set, h]
  have ht := (tells_logs .debug (r.events.filterMap Event.message?)).bind_pure (σ := σ) r
  have hw := ht { w with formatter := s' }
  rwa [run_bind] at hw

theorem run_replaceText {w : Workspace σ} {p : Path} {y : FileAt} (h : w.tree.file? p = some y)
    (checkOnly : Bool) (res : RunResult) (r : UpdateReport) (s : σ) :
    (if res.modified then
        replaceText checkOnly p res.text { r with errors := r.errors + res.errors.length }
      else pure { r with errors := r.errors + res.errors.length } : UpdateM σ UpdateReport).run w =
      Workspace.tellAll
        { w with
          tree := (FileUpdate.ofResult checkOnly (w.tree.isWritable p) p res s).tree w.tree }
        (FileUpdate.ofResult checkOnly (w.tree.isWritable p) p res s).last
        ((FileUpdate.ofResult checkOnly (w.tree.isWritable p) p res s).report r) := by
  have hw : w.tree.isWritable p = y.access.writable := by simp [Tree.isWritable, h]
  unfold FileUpdate.ofResult replacementNotices
  rw [hw]
  cases res.modified with
  | false => exact tells_pure _ w
  | true =>
    unfold replaceText
    cases checkOnly with
    | true => exact (tells_announce _).bind_pure _ w
    | false =>
      simp only [save, run_bind, run_get, Tree.write_eq h, Bool.false_eq_true, if_false, if_true]
      cases y.access.writable with
      | true => exact (tells_log _ _).bind ((tells_announce _).bind_pure _) _
      | false => exact (tells_log _ _).bind ((tells_complain _).bind_pure _) _

theorem run_updateFile (f : Formatter σ) {options : UpdateOptions} (p : Path) (r : UpdateReport)
    (w : Workspace σ) (hv : options.run.format.validate = .ok ()) :
    (updateFile f options p r).run w =
      (FileUpdate.ofPath f options w.tree p w.formatter).perform r w := by
  unfold updateFile
  rw [run_bind, run_get]
  obtain ⟨e, ht, hx⟩ | ⟨text, res, s', ht, hf, hx⟩ :=
    FileUpdate.ofPath_cases f options w.tree p w.formatter hv
  · simp only [ht, hx]
    exact (tells_log _ _).bind ((tells_complain _).bind_pure _) w
  · obtain ⟨y, hy, -⟩ := Tree.exists_file_of_readText ht
    simp only [ht, hx]
    rw [run_bind_of_tellAll (run_format hf)]
    simp only [(tells_log _ _).run_bind, (tells_reportErrors _ _ _).run_bind]
    rw [FileUpdate.perform]
    show _ = Workspace.andThen _ (res.notices p) _
    rw [RunResult.notices, Workspace.andThen_append]
    apply Workspace.andThen_congr
    intro c
    rw [Workspace.andThen_append]
    apply Workspace.andThen_congr
    intro c
    apply Workspace.andThen_congr
    intro c
    exact run_replaceText (w := ⟨w.tree, c, s'⟩) hy options.checkOnly res r s'

end FencedCode
