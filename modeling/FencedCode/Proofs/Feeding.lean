import FencedCode.Proofs.Frame

/-! What a run gives to the formatter. The sources of a body are known once its lines are
classified; the formatter gets them one after the other, up to the first one that it refuses, and
the next block finds it in the state that this one has left it in. -/
namespace FencedCode

variable {σ : Type}

namespace Formatter

/-- Gives sources to a formatter until it refuses one: the sources it got with its answers, and the
state it is left in. -/
def feed (f : Formatter σ) (options : FormatOptions) :
    List Text → σ → List (Text × Except FormatError Text) × σ
  | [], s => ([], s)
  | t :: ts, s =>
    match f.format t options s with
    | (.ok answer, s) =>
      ((t, .ok answer) :: (f.feed options ts s).1, (f.feed options ts s).2)
    | (.error e, s) => ([(t, .error e)], s)

/-- Gives the sources of several blocks to a formatter. A refusal ends its own block only. -/
def feedAll (f : Formatter σ) (options : FormatOptions) : List (List Text) → σ → List Text × σ
  | [], s => ([], s)
  | ts :: tss, s =>
    let fed := f.feed options ts s
    let rest := f.feedAll options tss fed.2
    (fed.1.map Prod.fst ++ rest.1, rest.2)

theorem feed_prefix (f : Formatter σ) (options : FormatOptions) (ts : List Text) (s : σ) :
    (f.feed options ts s).1.map Prod.fst <+: ts := by
  induction ts generalizing s with
  | nil => exact List.prefix_rfl
  | cons t ts ih =>
    rw [feed]
    cases f.format t options s with
    | mk result s =>
      cases result with
      | ok answer =>
        rw [List.map_cons, List.cons_prefix_cons]
        exact ⟨rfl, ih s⟩
      | error e => exact ⟨ts, rfl⟩

theorem exists_of_mem_feedAll {f : Formatter σ} {options : FormatOptions} {tss : List (List Text)}
    {s : σ} {t : Text} (h : t ∈ (f.feedAll options tss s).1) : ∃ ts ∈ tss, t ∈ ts := by
  induction tss generalizing s with
  | nil => contradiction
  | cons ts tss ih =>
    rcases List.mem_append.1 h with h | h
    · exact ⟨ts, List.mem_cons_self, (f.feed_prefix options ts s).subset h⟩
    · obtain ⟨us, hu, ht⟩ := ih h
      exact ⟨us, List.mem_cons_of_mem ts hu, ht⟩

end Formatter

/-- The source of a run that has code. -/
def Segment.source? : Segment → Option Text
  | .artifact _ => none
  | .source _ run =>
    if (Run.ofLines run).code.isEmpty then none else some (Run.ofLines run).source

theorem Segment.source?_of_code {first : Nat} {run : List BodyLine}
    (h : (Run.ofLines run).code ≠ []) :
    (Segment.source first run).source? = some (Run.ofLines run).source := by
  rw [source?, if_neg (by simpa using h)]

theorem Segment.source?_of_no_code {first : Nat} {run : List BodyLine}
    (h : (Run.ofLines run).code = []) : (Segment.source first run).source? = none := by
  rw [source?, if_pos (by simpa using h)]

theorem filterMap_call?_map_remarked (remarks : List String) :
    (remarks.map Event.remarked).filterMap Event.call? = [] := by
  simp [List.filterMap_map, Event.call?]

theorem filterMap_call?_ofFinding? (findings : List Finding) :
    (findings.filterMap Event.ofFinding?).filterMap Event.call? = [] := by
  rw [List.filterMap_filterMap, List.filterMap_eq_nil_iff]
  intro x _
  cases x <;> rfl

namespace Block

/-- The sources in the body of a block: none if the body cannot be classified. -/
def sources (rule : HeaderRule) (lines : List Line) (b : Block) : List Text :=
  match Body.classify rule b.kind b.indent (b.body lines) with
  | .ok c => (segments c.lines).filterMap Segment.source?
  | .error _ => []

/-- The sources that a run offers to the formatter. -/
def offered (rule : HeaderRule) (languages : List Text) (lines : List Line) (b : Block) :
    List Text :=
  if b.isWrittenIn languages then b.sources rule lines else []

variable (f : Formatter σ) (options : FormatOptions)

theorem formatSegments_feed (b : Block) (newline : Ending) (segs : List Segment) (s : σ) :
    (b.formatSegments f options newline segs s).events.filterMap Event.call? =
        (f.feed options (segs.filterMap Segment.source?) s).1.map Prod.fst ∧
      (b.formatSegments f options newline segs s).state =
        (f.feed options (segs.filterMap Segment.source?) s).2 := by
  induction segs generalizing s with
  | nil => exact ⟨rfl, rfl⟩
  | cons seg segs ih =>
    cases seg with
    | artifact l => exact ih s
    | source first run =>
      by_cases hc : (Run.ofLines run).code = []
      · rw [List.filterMap_cons_none (Segment.source?_of_no_code hc), formatSegments, formatRun]
        simp only [hc, List.isEmpty_nil, if_true, List.nil_append]
        exact ih s
      · rw [List.filterMap_cons_some (Segment.source?_of_code hc), formatSegments, formatRun,
          Formatter.feed]
        simp only [List.isEmpty_iff, hc, if_false]
        cases hf : f.format (Run.ofLines run).source options s with
        | mk result s =>
          cases result with
          | ok answer =>
            simp only [List.cons_append, List.filterMap_cons, List.filterMap_append, Event.call?,
              filterMap_call?_map_remarked, List.nil_append, (ih s).1, (ih s).2, List.map_cons,
              and_self]
          | error e =>
            simp [Event.call?]

/-- A block calls the formatter with its sources, and leaves it in the state after them. -/
theorem format_feed (rule : HeaderRule) (lines : List Line) (b : Block) (s : σ) :
    (b.format rule f options lines s).events.filterMap Event.call? =
        (f.feed options (b.sources rule lines) s).1.map Prod.fst ∧
      (b.format rule f options lines s).state = (f.feed options (b.sources rule lines) s).2 := by
  rw [format, sources]
  cases Body.classify rule b.kind b.indent (b.body lines) with
  | error fault => exact ⟨rfl, rfl⟩
  | ok c =>
    have hs := b.formatSegments_feed f options (newlineOf c.lines) (segments c.lines) s
    cases hr : (b.formatSegments f options (newlineOf c.lines) (segments c.lines) s).result with
    | error e =>
      simp only [hr]
      exact hs
    | ok text =>
      simp only [hr, List.filterMap_append]
      refine ⟨?_, hs.2⟩
      rw [hs.1]
      exact List.append_nil _

end Block

namespace Outcome

variable (rule : HeaderRule) (f : Formatter σ) (options : RunOptions) (lines : List Line)

theorem ofBlock_feed (b : Block) (s : σ) :
    (ofBlock rule f options lines b s).1.events.filterMap Event.call? =
        (f.feed options.format (b.offered rule options.languages lines) s).1.map Prod.fst ∧
      (ofBlock rule f options lines b s).2 =
        (f.feed options.format (b.offered rule options.languages lines) s).2 := by
  rw [ofBlock, Block.offered]
  by_cases hw : b.isWrittenIn options.languages
  · have hf := b.format_feed f options.format rule lines s
    simp only [hw, if_true]
    cases (b.format rule f options.format lines s).result with
    | ok new =>
      refine ⟨?_, hf.2⟩
      have ht : (new.tags.toList.map (Event.tagged (b.fenceLine + 1))).filterMap Event.call? =
          [] := by
        simp [List.filterMap_map, Event.call?]
      rw [List.filterMap_append, ht, List.append_nil, hf.1]
    | error e =>
      refine ⟨?_, hf.2⟩
      rw [List.filterMap_append, hf.1]
      exact List.append_nil _
  · simp only [hw, Bool.false_eq_true, if_false]
    exact ⟨rfl, rfl⟩

theorem ofBlocks_feed (bs : List Block) (s : σ) :
    ((ofBlocks rule f options lines bs s).1.flatMap Outcome.events).filterMap Event.call? =
        (f.feedAll options.format (bs.map (·.offered rule options.languages lines)) s).1 ∧
      (ofBlocks rule f options lines bs s).2 =
        (f.feedAll options.format (bs.map (·.offered rule options.languages lines)) s).2 := by
  induction bs generalizing s with
  | nil => exact ⟨rfl, rfl⟩
  | cons b bs ih =>
    obtain ⟨hc, hs⟩ := ofBlock_feed rule f options lines b s
    rw [ofBlocks, List.map_cons, Formatter.feedAll, List.flatMap_cons, List.filterMap_append, hc]
    simp only [← hs, (ih _).1, (ih _).2, and_self]

end Outcome

/-- A run calls the formatter with the sources of its blocks, and leaves it in the state after
them. -/
theorem formatWith_feed (rule : HeaderRule) (f : Formatter σ) {options : RunOptions} {text : Text}
    {s s' : σ} {r : RunResult} (h : formatWith rule f options text s = (.ok r, s')) :
    (r.calls, s') = f.feedAll options.format
      (text.blocks.map (·.offered rule options.languages text.splitLines)) s := by
  have hf := Outcome.ofBlocks_feed rule f options text.splitLines text.blocks s
  rw [formatWith] at h
  cases hv : options.format.validate with
  | error e =>
    rw [hv] at h
    simp at h
  | ok u =>
    rw [hv] at h
    obtain ⟨hr, hs⟩ := Prod.mk.inj h
    obtain rfl := Except.ok.inj hr
    rw [RunResult.calls, List.filterMap_append, filterMap_call?_ofFinding?, List.nil_append, ← hs]
    exact Prod.ext hf.1 hf.2

end FencedCode
