import FencedCode.Proofs.Feeding

/-! A formatter that keeps a record of its calls. Every step of a run does with it what it does
without the record, and the record tells the calls that the run is said to have made. -/
namespace FencedCode

variable {σ : Type}

namespace Attempt

variable {α : Type}

/-- The sources that the formatter was called with. -/
def calls (a : Attempt σ α) : List Text := a.events.filterMap Event.call?

/-- The attempt with its calls added to a record. -/
def recorded (a : Attempt σ α) (before : List Text) : Attempt (σ × List Text) α :=
  { a with state := (a.state, before ++ a.calls) }

end Attempt

namespace Block

variable (f : Formatter σ) (b : Block) (options : FormatOptions)

theorem formatRun_recorded (newline : Ending) (first : Nat) (run : List BodyLine) (s : σ)
    (before : List Text) :
    b.formatRun f.recorded options newline first run (s, before) =
      (b.formatRun f options newline first run s).recorded before := by
  unfold formatRun
  by_cases hc : (Run.ofLines run).code.isEmpty
  · simp [hc, Attempt.recorded, Attempt.calls]
  · have hf : f.recorded.format (Run.ofLines run).source options (s, before) =
        ((f.format (Run.ofLines run).source options s).1,
          (f.format (Run.ofLines run).source options s).2, before ++ [(Run.ofLines run).source]) :=
      rfl
    have hr := filterMap_call?_map_remarked (f.remarks (Run.ofLines run).source options s)
    simp only [hc, Bool.false_eq_true, if_false, hf]
    cases f.format (Run.ofLines run).source options s with
    | mk result state =>
      cases result <;>
        simp only [Attempt.recorded, Attempt.calls, Event.call?, List.filterMap_cons, hr,
          Formatter.recorded]

theorem formatSegments_recorded (newline : Ending) (segs : List Segment) (s : σ)
    (before : List Text) :
    b.formatSegments f.recorded options newline segs (s, before) =
      (b.formatSegments f options newline segs s).recorded before := by
  induction segs generalizing s before with
  | nil => simp [formatSegments, Attempt.recorded, Attempt.calls]
  | cons seg segs ih =>
    cases seg with
    | artifact l =>
      simp only [formatSegments, ih]
      rfl
    | source first run =>
      simp only [formatSegments, formatRun_recorded]
      cases hr : (b.formatRun f options newline first run s).result with
      | error e => simp [Attempt.recorded, Attempt.calls, hr]
      | ok text => simp [Attempt.recorded, Attempt.calls, hr, ih]

theorem format_recorded (rule : HeaderRule) (lines : List Line) (s : σ) (before : List Text) :
    b.format rule f.recorded options lines (s, before) =
      (b.format rule f options lines s).recorded before := by
  rw [format, format]
  cases Body.classify rule b.kind b.indent (b.body lines) with
  | error fault => simp [Attempt.recorded, Attempt.calls]
  | ok c =>
    simp only [formatSegments_recorded]
    cases hr : (b.formatSegments f options (newlineOf c.lines) (segments c.lines) s).result with
    | error e => simp [Attempt.recorded, Attempt.calls, hr]
    | ok text => simp [Attempt.recorded, Attempt.calls, hr, Event.call?]

end Block

namespace Outcome

variable (rule : HeaderRule) (f : Formatter σ) (options : RunOptions) (lines : List Line)

def calls (o : Outcome) : List Text := o.events.filterMap Event.call?

theorem ofBlock_recorded (b : Block) (s : σ) (before : List Text) :
    ofBlock rule f.recorded options lines b (s, before) =
      ((ofBlock rule f options lines b s).1, (ofBlock rule f options lines b s).2,
        before ++ (ofBlock rule f options lines b s).1.calls) := by
  unfold ofBlock
  by_cases hw : b.isWrittenIn options.languages
  · simp only [hw, if_true, Block.format_recorded]
    cases hr : (b.format rule f options.format lines s).result with
    | ok new => simp [Attempt.recorded, Attempt.calls, calls, hr, Event.call?, List.filterMap_map]
    | error e => simp [Attempt.recorded, Attempt.calls, calls, hr, Event.call?]
  · simp [hw, calls, Event.call?]

theorem ofBlocks_recorded (bs : List Block) (s : σ) (before : List Text) :
    ofBlocks rule f.recorded options lines bs (s, before) =
      ((ofBlocks rule f options lines bs s).1, (ofBlocks rule f options lines bs s).2,
        before ++ (ofBlocks rule f options lines bs s).1.flatMap calls) := by
  induction bs generalizing s before with
  | nil => simp [ofBlocks]
  | cons b bs ih => simp [ofBlocks, ofBlock_recorded, ih]

end Outcome

/-- A run with the record gives the same result, leaves the formatter in the same state, and has
added its calls to the record. -/
theorem formatWith_recorded (rule : HeaderRule) (f : Formatter σ) {options : RunOptions}
    {text : Text} {s s' : σ} {r : RunResult} (before : List Text)
    (h : formatWith rule f options text s = (.ok r, s')) :
    formatWith rule f.recorded options text (s, before) = (.ok r, s', before ++ r.calls) := by
  unfold formatWith at h ⊢
  cases hv : options.format.validate with
  | error e => simp [hv] at h
  | ok u =>
    simp only [hv, Outcome.ofBlocks_recorded] at h ⊢
    obtain ⟨hr, hs⟩ := Prod.mk.inj h
    obtain rfl := Except.ok.inj hr
    rw [hs, RunResult.calls, List.filterMap_append, filterMap_call?_ofFinding?, List.nil_append,
      List.filterMap_flatMap]
    rfl

end FencedCode
