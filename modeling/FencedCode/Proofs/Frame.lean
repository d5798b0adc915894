import FencedCode.Proofs.Layout
import FencedCode.Proofs.Results

/-! What formatting a document may change: the bodies of blocks in the chosen languages in which
every step succeeds. All other lines stay, and every failing block is reported once. -/
namespace FencedCode

variable {σ : Type}

namespace Block

/-- A block fails if its body cannot be classified, or if the formatter refuses the code of one of
its runs, in the state that the runs before it left behind. -/
inductive Fails (rule : HeaderRule) (f : Formatter σ) (options : FormatOptions) (lines : List Line)
    (b : Block) (s : σ) : Prop
  | unreadable {fault : BlockFault}
      (unclassified : Body.classify rule b.kind b.indent (b.body lines) = .error fault)
  | refused {body : Body} {before after : List Segment} {first : Nat} {run : List BodyLine}
      {done : Text} {e : FormatError}
      (classified : Body.classify rule b.kind b.indent (b.body lines) = .ok body)
      (cut : segments body.lines = before ++ .source first run :: after)
      (earlier : (b.formatSegments f options (newlineOf body.lines) before s).result = .ok done)
      (code : (Run.ofLines run).code ≠ [])
      (refusal : (f.format (Run.ofLines run).source options
        (b.formatSegments f options (newlineOf body.lines) before s).state).1 = .error e)

theorem formatError_location (b : Block) (first : Nat) (e : FormatError) :
    (b.formatError first e).location = b.location := by
  cases e <;> rfl

/-- A run fails exactly if it has code and the formatter refuses it. -/
theorem formatRun_eq_error_iff (b : Block) (f : Formatter σ) (options : FormatOptions)
    (newline : Ending) (first : Nat) (run : List BodyLine) (s : σ) {err : BlockError} :
    (b.formatRun f options newline first run s).result = .error err ↔
      (Run.ofLines run).code ≠ [] ∧
        ∃ e, (f.format (Run.ofLines run).source options s).1 = .error e ∧
          err = b.formatError (first + (Run.ofLines run).leading.length) e := by
  rw [formatRun]
  by_cases hc : (Run.ofLines run).code = []
  · simp [hc]
  · simp only [List.isEmpty_iff, hc, if_false, ne_eq, not_false_eq_true, true_and]
    cases hf : f.format (Run.ofLines run).source options s with
    | mk result state =>
      cases result with
      | ok answer => simp
      | error e => simp [eq_comm]

theorem formatSegments_artifact_result (b : Block) (f : Formatter σ) (options : FormatOptions)
    (newline : Ending) (l : BodyLine) (segs : List Segment) (s : σ) :
    (b.formatSegments f options newline (.artifact l :: segs) s).result =
      (b.formatSegments f options newline segs s).result.map
        (l.preserved ++ l.ending.text ++ ·) := rfl

theorem formatSegments_source_of_ok {b : Block} {f : Formatter σ} {options : FormatOptions}
    {newline : Ending} {first : Nat} {run : List BodyLine} {s : σ} {text : Text}
    (h : (b.formatRun f options newline first run s).result = .ok text) (segs : List Segment) :
    (b.formatSegments f options newline (.source first run :: segs) s).result =
        (b.formatSegments f options newline segs
          (b.formatRun f options newline first run s).state).result.map (text ++ ·) ∧
      (b.formatSegments f options newline (.source first run :: segs) s).state =
        (b.formatSegments f options newline segs
          (b.formatRun f options newline first run s).state).state := by
  rw [formatSegments, h]
  exact ⟨rfl, rfl⟩

theorem formatSegments_source_of_error {b : Block} {f : Formatter σ} {options : FormatOptions}
    {newline : Ending} {first : Nat} {run : List BodyLine} {s : σ} {err : BlockError}
    (h : (b.formatRun f options newline first run s).result = .error err) (segs : List Segment) :
    (b.formatSegments f options newline (.source first run :: segs) s).result = .error err := by
  rw [formatSegments, h]

/-- The segments of a body fail exactly if one of them does after all before it have succeeded. -/
theorem formatSegments_eq_error_iff (b : Block) (f : Formatter σ) (options : FormatOptions)
    (newline : Ending) (segs : List Segment) (s : σ) {err : BlockError} :
    (b.formatSegments f options newline segs s).result = .error err ↔
      ∃ before first run after done, segs = before ++ .source first run :: after ∧
        (b.formatSegments f options newline before s).result = .ok done ∧
        (b.formatRun f options newline first run
          (b.formatSegments f options newline before s).state).result = .error err := by
  induction segs generalizing s with
  | nil => simp [formatSegments]
  | cons seg segs ih =>
    cases seg with
    | artifact l =>
      rw [formatSegments_artifact_result, Except.map_eq_error_iff, ih]
      constructor
      · rintro ⟨before, first, run, after, done, rfl, hd, hr⟩
        refine ⟨.artifact l :: before, first, run, after, l.preserved ++ l.ending.text ++ done, rfl,
          ?_, hr⟩
        rw [formatSegments_artifact_result, hd]
        rfl
      · rintro ⟨before, first, run, after, done, he, hd, hr⟩
        cases before with
        | nil => simp at he
        | cons seg before =>
          obtain ⟨rfl, rfl⟩ := List.cons.inj he
          rw [formatSegments_artifact_result] at hd
          obtain ⟨rest, hd, -⟩ := Except.map_eq_ok_iff.1 hd
          exact ⟨before, first, run, after, rest, rfl, hd, hr⟩
    | source first run =>
      cases ha : (b.formatRun f options newline first run s).result with
      | error e =>
        rw [formatSegments_source_of_error ha]
        constructor
        · intro h
          exact ⟨[], first, run, segs, [], rfl, rfl, ha.trans h⟩
        · rintro ⟨before, first', run', after, done, he, hd, hr⟩
          cases before with
          | nil =>
            obtain ⟨⟨rfl, rfl⟩, rfl⟩ := by simpa using he
            exact ha.symm.trans hr
          | cons seg before =>
            obtain ⟨rfl, rfl⟩ := List.cons.inj he
            rw [formatSegments_source_of_error ha] at hd
            contradiction
      | ok text =>
        rw [(formatSegments_source_of_ok ha segs).1, Except.map_eq_error_iff, ih]
        constructor
        · rintro ⟨before, first', run', after, done, rfl, hd, hr⟩
          obtain ⟨hok, hst⟩ := formatSegments_source_of_ok ha before
          refine ⟨.source first run :: before, first', run', after, text ++ done, rfl, ?_, hst ▸ hr⟩
          rw [hok, hd]
          rfl
        · rintro ⟨before, first', run', after, done, he, hd, hr⟩
          cases before with
          | nil =>
            obtain ⟨⟨rfl, rfl⟩, rfl⟩ := by simpa using he
            have hr' := ha.symm.trans hr
            contradiction
          | cons seg before =>
            obtain ⟨rfl, rfl⟩ := List.cons.inj he
            obtain ⟨hok, hst⟩ := formatSegments_source_of_ok ha before
            rw [hok] at hd
            obtain ⟨rest, hd, -⟩ := Except.map_eq_ok_iff.1 hd
            exact ⟨before, first', run', after, rest, rfl, hd, hst ▸ hr⟩

/-- A block that fails gives one error, at its fence; a block that does not gives a new body. -/
theorem format_result (rule : HeaderRule) (f : Formatter σ) (options : FormatOptions)
    (lines : List Line) (b : Block) (s : σ) :
    (b.Fails rule f options lines s ∧
        ∃ e, (b.format rule f options lines s).result = .error e ∧ e.location = b.location) ∨
      (¬ b.Fails rule f options lines s ∧
        ∃ new, (b.format rule f options lines s).result = .ok new) := by
  rw [format]
  cases hc : Body.classify rule b.kind b.indent (b.body lines) with
  | error fault => exact .inl ⟨.unreadable hc, _, rfl, rfl⟩
  | ok body =>
    cases hr :
        (b.formatSegments f options (newlineOf body.lines) (segments body.lines) s).result with
    | error err =>
      obtain ⟨before, first, run, after, done, hs, hd, he⟩ :=
        (b.formatSegments_eq_error_iff f options _ _ s).1 hr
      obtain ⟨hn, e, hf, rfl⟩ := (b.formatRun_eq_error_iff f options _ first run _).1 he
      simp only [hr]
      exact .inl ⟨.refused hc hs hd hn hf, _, rfl, b.formatError_location _ _⟩
    | ok text =>
      simp only [hr]
      refine .inr ⟨?_, _, rfl⟩
      intro hf
      cases hf with
      | unreadable hu =>
        rw [hc] at hu
        contradiction
      | @refused _ before after first run done e hc' hs hd hn hf =>
        obtain rfl := Except.ok.inj (hc.symm.trans hc')
        have he := (b.formatRun_eq_error_iff f options (newlineOf body.lines) first run _).2
          ⟨hn, e, hf, rfl⟩
        have hr' := (b.formatSegments_eq_error_iff f options _ _ s).2
          ⟨before, first, run, after, done, hs, hd, he⟩
        rw [hr] at hr'
        contradiction

/-- The text that a run puts in the place of a block's body. -/
def newBody (rule : HeaderRule) (f : Formatter σ) (options : RunOptions) (lines : List Line)
    (b : Block) (s : σ) : Text :=
  if b.isWrittenIn options.languages then
    match (b.format rule f options.format lines s).result with
    | .ok new => new.body
    | .error _ => joinLines (b.body lines)
  else joinLines (b.body lines)

/-- The error that a run reports for a block. -/
def error? (rule : HeaderRule) (f : Formatter σ) (options : RunOptions) (lines : List Line)
    (b : Block) (s : σ) : Option BlockError :=
  if b.isWrittenIn options.languages then
    match (b.format rule f options.format lines s).result with
    | .ok _ => none
    | .error e => some e
  else none

/-- The state that a block leaves the formatter in, whether it fails or not. -/
def stateAfter (rule : HeaderRule) (f : Formatter σ) (options : RunOptions) (lines : List Line)
    (b : Block) (s : σ) : σ :=
  if b.isWrittenIn options.languages then (b.format rule f options.format lines s).state else s

section Visit

variable {rule : HeaderRule} {f : Formatter σ} {options : RunOptions} {lines : List Line}
  {b : Block} {s : σ}

theorem newBody_of_kept
    (h : b.isWrittenIn options.languages = false ∨ b.Fails rule f options.format lines s) :
    b.newBody rule f options lines s = joinLines (b.body lines) := by
  rw [newBody]
  obtain ⟨-, e, he, -⟩ | ⟨hn, -⟩ := b.format_result rule f options.format lines s
  · rw [he]
    exact ite_self _
  · rw [h.resolve_right hn]
    rfl

theorem newBody_of_formatted (hw : b.isWrittenIn options.languages)
    (hn : ¬ b.Fails rule f options.format lines s) :
    ∃ new, (b.format rule f options.format lines s).result = .ok new ∧
      b.newBody rule f options lines s = new.body := by
  obtain ⟨hf, -⟩ | ⟨-, new, he⟩ := b.format_result rule f options.format lines s
  · exact absurd hf hn
  · refine ⟨new, he, ?_⟩
    rw [newBody, if_pos hw, he]

theorem isSome_error?_iff : (b.error? rule f options lines s).isSome ↔
    b.isWrittenIn options.languages ∧ b.Fails rule f options.format lines s := by
  rw [error?]
  by_cases hw : b.isWrittenIn options.languages
  · obtain ⟨hf, e, he, -⟩ | ⟨hn, new, he⟩ := b.format_result rule f options.format lines s
    · simp [hw, he, hf]
    · simp [hw, he, hn]
  · simp [hw]

theorem line_of_error? {e : BlockError} (h : e ∈ b.error? rule f options lines s) :
    e.location.line = b.fenceLine + 1 := by
  obtain ⟨hw, hf⟩ := isSome_error?_iff.1 (Option.isSome_of_mem h)
  obtain ⟨-, e', he, hl⟩ | ⟨hn, -⟩ := b.format_result rule f options.format lines s
  · rw [error?, if_pos hw, he] at h
    obtain rfl : e' = e := by simpa using h
    rw [hl]
    rfl
  · exact absurd hf hn

end Visit

end Block

/-- The blocks in order, each with the state of the formatter when a run comes to it. -/
def visits (rule : HeaderRule) (f : Formatter σ) (options : RunOptions) (lines : List Line) :
    List Block → σ → List (Block × σ)
  | [], _ => []
  | b :: bs, s => (b, s) :: visits rule f options lines bs (b.stateAfter rule f options lines s)

namespace Outcome

variable (rule : HeaderRule) (f : Formatter σ) (options : RunOptions) (lines : List Line)

theorem ofBlock_eq (b : Block) (s : σ) :
    (ofBlock rule f options lines b s).1.block = b ∧
      (ofBlock rule f options lines b s).1.body = b.newBody rule f options lines s ∧
      (ofBlock rule f options lines b s).1.error = b.error? rule f options lines s ∧
      (ofBlock rule f options lines b s).1.matching = b.isWrittenIn options.languages ∧
      (ofBlock rule f options lines b s).2 = b.stateAfter rule f options lines s := by
  rw [ofBlock, Block.newBody, Block.error?, Block.stateAfter]
  by_cases hw : b.isWrittenIn options.languages
  · simp only [hw, if_true]
    cases (b.format rule f options.format lines s).result with
    | ok new => exact ⟨rfl, rfl, rfl, rfl, rfl⟩
    | error e => exact ⟨rfl, rfl, rfl, rfl, rfl⟩
  · simp [hw]

/-- A run meets every block, and what becomes of each depends on the state it is met in. -/
theorem ofBlocks_eq (bs : List Block) (s : σ) :
    (ofBlocks rule f options lines bs s).1 =
      (visits rule f options lines bs s).map fun v => (ofBlock rule f options lines v.1 v.2).1 := by
  induction bs generalizing s with
  | nil => rfl
  | cons b bs ih =>
    rw [ofBlocks, visits, List.map_cons, ← (ofBlock_eq rule f options lines b s).2.2.2.2, ← ih]

theorem map_fst_visits (bs : List Block) (s : σ) :
    (visits rule f options lines bs s).map Prod.fst = bs := by
  induction bs generalizing s with
  | nil => rfl
  | cons b bs ih => rw [visits, List.map_cons, ih]

theorem map_ofBlocks {α : Type} (g : Outcome → α) (bs : List Block) (s : σ) :
    (ofBlocks rule f options lines bs s).1.map g =
      (visits rule f options lines bs s).map fun v =>
        g (ofBlock rule f options lines v.1 v.2).1 := by
  rw [ofBlocks_eq, List.map_map]
  rfl

theorem map_block_ofBlocks (bs : List Block) (s : σ) :
    (ofBlocks rule f options lines bs s).1.map Outcome.block = bs := by
  rw [map_ofBlocks]
  simp only [(ofBlock_eq rule f options lines _ _).1]
  exact map_fst_visits rule f options lines bs s

theorem map_body_ofBlocks (bs : List Block) (s : σ) :
    (ofBlocks rule f options lines bs s).1.map Outcome.body =
      (visits rule f options lines bs s).map fun v => v.1.newBody rule f options lines v.2 := by
  rw [map_ofBlocks]
  simp only [(ofBlock_eq rule f options lines _ _).2.1]

theorem filterMap_error_ofBlocks (bs : List Block) (s : σ) :
    (ofBlocks rule f options lines bs s).1.filterMap Outcome.error =
      (visits rule f options lines bs s).filterMap fun v =>
        v.1.error? rule f options lines v.2 := by
  rw [ofBlocks_eq, List.filterMap_map]
  congr 1
  funext v
  exact (ofBlock_eq rule f options lines v.1 v.2).2.2.1

theorem filter_matching_ofBlocks (bs : List Block) (s : σ) :
    ((ofBlocks rule f options lines bs s).1.filter Outcome.matching).length =
      (bs.filter (·.isWrittenIn options.languages)).length := by
  have hm : (ofBlocks rule f options lines bs s).1.map Outcome.matching =
      bs.map (·.isWrittenIn options.languages) := by
    rw [map_ofBlocks]
    simp only [(ofBlock_eq rule f options lines _ _).2.2.2.1]
    conv_rhs => rw [← map_fst_visits rule f options lines bs s, List.map_map]
    rfl
  rw [← List.countP_eq_length_filter, ← List.countP_eq_length_filter]
  have hc := congrArg (List.countP id) hm
  rwa [List.countP_map, List.countP_map] at hc

end Outcome

/-- What a run may do to a document: the lines outside of bodies stay where they are, and a body
is replaced only in a block that is in a chosen language and does not fail. -/
structure Framed (rule : HeaderRule) (f : Formatter σ) (options : RunOptions) (text : Text) (s : σ)
    (r : RunResult) : Prop where
  /-- The text is that of the document's own layout, with a new body in each of its blocks. -/
  spliced : ∃ ps : Layout, ps.lines = text.splitLines ∧ ps.blocks = text.blocks ∧
    r.text = ps.render ((visits rule f options text.splitLines text.blocks s).map fun v =>
      v.1.newBody rule f options text.splitLines v.2)
  /-- No block is left out, also not after one that fails. -/
  visited : (visits rule f options text.splitLines text.blocks s).map Prod.fst = text.blocks
  kept : ∀ v ∈ visits rule f options text.splitLines text.blocks s,
    v.1.isWrittenIn options.languages = false ∨
        v.1.Fails rule f options.format text.splitLines v.2 →
      v.1.newBody rule f options text.splitLines v.2 = joinLines (v.1.body text.splitLines)
  formatted : ∀ v ∈ visits rule f options text.splitLines text.blocks s,
    v.1.isWrittenIn options.languages →
      ¬ v.1.Fails rule f options.format text.splitLines v.2 →
      ∃ new, (v.1.format rule f options.format text.splitLines v.2).result = .ok new ∧
        v.1.newBody rule f options text.splitLines v.2 = new.body
  errors : r.errors = (visits rule f options text.splitLines text.blocks s).filterMap fun v =>
    v.1.error? rule f options text.splitLines v.2
  reported : ∀ v ∈ visits rule f options text.splitLines text.blocks s,
    ((v.1.error? rule f options text.splitLines v.2).isSome ↔
      v.1.isWrittenIn options.languages ∧ v.1.Fails rule f options.format text.splitLines v.2) ∧
    ∀ e ∈ v.1.error? rule f options text.splitLines v.2, e.location.line = v.1.fenceLine + 1
  ordered : (r.errors.map fun e => e.location.line).Pairwise (· < ·)
  seen : r.blocksSeen = text.blocks.length
  matching : r.blocksFormatted = (text.blocks.filter (·.isWrittenIn options.languages)).length
  bounded : r.errors.length ≤ r.blocksFormatted ∧ r.blocksFormatted ≤ r.blocksSeen

/-- The blocks of a document lie one after the other. -/
theorem pairwise_blocks (text : Text) :
    text.blocks.Pairwise fun b c => b.fenceLine < c.fenceLine := by
  obtain ⟨ps, hl, hp⟩ := Layout.exists_proper text.splitLines
  rw [← hp.blocks_eq hl, Layout.blocks]
  refine (Layout.pairwise_blocksFrom ps 0).imp_of_mem fun {b c} hb _ h => ?_
  have hs := (Layout.fenceLine_of_mem_blocksFrom hb).2.1
  rw [Block.startLine] at hs
  omega

/-- A run of which the options make sense, in terms of what becomes of each block. -/
theorem formatWith_eq_ok (rule : HeaderRule) (f : Formatter σ) {options : RunOptions} (text : Text)
    (s : σ) (hv : options.format.validate = .ok ()) :
    ∃ r s', formatWith rule f options text s = (.ok r, s') ∧ r.modified = (r.text != text) ∧
      (∀ ps : Layout, ps.lines = text.splitLines → ps.Proper →
        r.text = ps.render ((visits rule f options text.splitLines text.blocks s).map fun v =>
          v.1.newBody rule f options text.splitLines v.2)) ∧
      (r.errors = (visits rule f options text.splitLines text.blocks s).filterMap fun v =>
        v.1.error? rule f options text.splitLines v.2) ∧
      r.blocksSeen = text.blocks.length ∧
      r.blocksFormatted = (text.blocks.filter (·.isWrittenIn options.languages)).length := by
  have hb := Outcome.map_block_ofBlocks rule f options text.splitLines text.blocks s
  rw [formatWith, hv]
  refine ⟨_, _, rfl, rfl, ?_, ?_, ?_, ?_⟩
  · intro ps hl hp
    rw [← Outcome.map_body_ofBlocks, ← Layout.assemble_lines (i := 0), hl]
    · rfl
    · exact hb.trans (hp.blocks_eq hl).symm
  · exact Outcome.filterMap_error_ofBlocks rule f options text.splitLines text.blocks s
  · have hn := congrArg List.length hb
    rwa [List.length_map] at hn
  · exact Outcome.filter_matching_ofBlocks rule f options text.splitLines text.blocks s

/-- Formatting a document succeeds whenever the options make sense, and keeps to its frame. -/
theorem formatWith_framed (rule : HeaderRule) (f : Formatter σ) (options : RunOptions) (text : Text)
    (s : σ) (hv : options.format.validate = .ok ()) :
    ∃ r s', formatWith rule f options text s = (.ok r, s') ∧ Framed rule f options text s r := by
  obtain ⟨r, s', hr, -, ht, he, hs, hm⟩ := formatWith_eq_ok rule f text s hv
  obtain ⟨ps, hl, hp⟩ := Layout.exists_proper text.splitLines
  have hvis := Outcome.map_fst_visits rule f options text.splitLines text.blocks s
  refine ⟨r, s', hr, ?_⟩
  constructor
  · exact ⟨ps, hl, hp.blocks_eq hl, ht ps hl hp⟩
  · exact hvis
  · intro v _ h
    exact Block.newBody_of_kept h
  · intro v _ hw hn
    exact Block.newBody_of_formatted hw hn
  · exact he
  · intro v _
    exact ⟨Block.isSome_error?_iff, fun e => Block.line_of_error?⟩
  · -- The fences of the blocks are in order, so the errors at some of them are too.
    have hpw : (visits rule f options text.splitLines text.blocks s).Pairwise
        fun v w => v.1.fenceLine < w.1.fenceLine := by
      rw [← List.pairwise_map (f := Prod.fst) (R := fun b c : Block => b.fenceLine < c.fenceLine),
        hvis]
      exact pairwise_blocks text
    rw [he, List.pairwise_map]
    refine hpw.filterMap _ fun v w hvw e hev e' hew => ?_
    rw [Block.line_of_error? hev, Block.line_of_error? hew]
    omega
  · exact hs
  · exact hm
  · rw [hs, hm, he]
    refine ⟨?_, List.length_filter_le _ _⟩
    conv_rhs => rw [← hvis, List.filter_map, List.length_map, ← List.countP_eq_length_filter]
    rw [List.length_filterMap_eq_countP]
    refine List.countP_mono_left fun v _ h => ?_
    exact (Block.isSome_error?_iff.1 h).1

/-- The second run of the first block fails after the first one has succeeded. -/
theorem formatWith_framed_second_run_fails :
    ({} : RunOptions).format.validate = .ok () ∧
      ∃ r s', formatWith Header.rule Formatter.prepared {}
          "# a\n```python\nx=1\n!ls \ny=(\n```\nb\n~~~ py\nz=1\n~~~\n```rust\n \n```".toList
          [.ok "x = 1\n".toList, .error (.unparsable 1 3 "eof"), .ok "z = 1\n".toList] =
        (.ok r, s') ∧
        Framed Header.rule Formatter.prepared {}
          "# a\n```python\nx=1\n!ls \ny=(\n```\nb\n~~~ py\nz=1\n~~~\n```rust\n \n```".toList
          [.ok "x = 1\n".toList, .error (.unparsable 1 3 "eof"), .ok "z = 1\n".toList] r :=
  ⟨rfl, formatWith_framed _ _ _ _ _ rfl⟩

end FencedCode
