import FencedCode.Proofs.Draft

/-! Documents that are written one after the other. Where no fence of the first one is left open,
the scan and the run treat the two as they treat each alone, and what is said of the second one is
said some lines further down. -/
namespace FencedCode

variable {σ : Type}

/-- The block in a document with more lines in front. -/
def Block.down (b : Block) (n : Nat) : Block :=
  { b with fenceLine := b.fenceLine + n, endLine := b.endLine + n }

/-- The error in a document with more lines in front. Its location is that of a fence, and counts a
line of the document; its position rests on what a formatter says, and wraps around. -/
def BlockError.down (e : BlockError) (n : Nat) : BlockError :=
  { e with
    location := { e.location with line := e.location.line + n }
    position := e.position.map (·.down n) }

/-- A text after which another one can begin: its last line is ended, and every line that opens a
fence lies in a block. -/
structure Text.IsSection (t : Text) : Prop where
  ended : t = [] ∨ t.getLast? = some '\n'
  enclosed : ∀ i l o, t.splitLines[i]? = some l → Opener.ofContent? l.content = some o →
    isCovered t.blocks i

/-- The result of a run on two texts, the first of which has `n` lines, in terms of the results for
each of them. -/
structure RunResult.Joins (n : Nat) (r₁ r₂ r : RunResult) : Prop where
  text : r.text = r₁.text ++ r₂.text
  errors : r.errors = r₁.errors ++ r₂.errors.map (·.down n)
  seen : r.blocksSeen = r₁.blocksSeen + r₂.blocksSeen
  formatted : r.blocksFormatted = r₁.blocksFormatted + r₂.blocksFormatted
  calls : r.calls = r₁.calls ++ r₂.calls

theorem Text.splitLines_append {t : Text} (h : t = [] ∨ t.getLast? = some '\n') (u : Text) :
    (t ++ u).splitLines = t.splitLines ++ u.splitLines := by
  induction t using lineInduction with
  | nil => rfl
  | last c hc hn =>
    have hl := h.resolve_left hn
    exact absurd (List.mem_of_getLast? hl) hc
  | line c r hc ih =>
    have hr : r = [] ∨ r.getLast? = some '\n' := by
      by_cases hn : r = []
      · exact .inl hn
      · right
        have hl := h.resolve_left (by simp)
        rwa [List.append_cons, List.getLast?_append_of_ne_nil _ hn] at hl
    rw [List.append_assoc, List.cons_append, splitLines_append_lf hc, splitLines_append_lf hc,
      ih hr, List.cons_append]

namespace Layout

theorem lines_append (ps qs : Layout) : lines (ps ++ qs) = lines ps ++ lines qs :=
  List.flatMap_append

theorem blocksFrom_append (ps qs : Layout) (i : Nat) :
    blocksFrom i (ps ++ qs) = blocksFrom i ps ++ blocksFrom (i + (lines ps).length) qs := by
  induction ps generalizing i with
  | nil => rfl
  | cons p ps ih =>
    cases p with
    | line l =>
      rw [List.cons_append, blocksFrom, blocksFrom, ih, lines_line, List.length_cons]
      congr 2
      omega
    | fenced f =>
      rw [List.cons_append, blocksFrom, blocksFrom, ih, lines_fenced, List.cons_append]
      congr 3
      simp only [List.length_cons, List.length_append]
      omega

theorem blocksFrom_add (ps : Layout) (i n : Nat) :
    blocksFrom (i + n) ps = (blocksFrom i ps).map (·.down n) := by
  induction ps generalizing i with
  | nil => rfl
  | cons p ps ih =>
    cases p with
    | line l =>
      rw [blocksFrom, blocksFrom, ← ih]
      congr 1
      omega
    | fenced f =>
      have he : i + n + 1 + f.body.length = i + 1 + f.body.length + n := by omega
      have hr : i + n + 2 + f.body.length = i + 2 + f.body.length + n := by omega
      rw [blocksFrom, blocksFrom, List.map_cons, ← ih, he, hr]
      rfl

theorem render_append (ps qs : Layout) {ts : List Text} (h : ts.length = ps.fences.length)
    (us : List Text) : render (ps ++ qs) (ts ++ us) = render ps ts ++ render qs us := by
  induction ps generalizing ts with
  | nil =>
    obtain rfl : ts = [] := by simpa using h
    rfl
  | cons p ps ih =>
    cases p with
    | line l => rw [List.cons_append, render, render, ih h, List.append_assoc]
    | fenced f =>
      cases ts with
      | nil => simp at h
      | cons t ts =>
        rw [List.cons_append, List.cons_append, render, render, ih (by simpa using h)]
        simp only [List.append_assoc]

/-- Where every line that opens a fence lies in a block, the lines of text open none. -/
theorem ofContent?_of_enclosed {ps : Layout} {k : Nat}
    (h : ∀ i l o, (lines ps)[i]? = some l → Opener.ofContent? l.content = some o →
      isCovered (blocksFrom k ps) (k + i)) :
    ∀ l, Piece.line l ∈ ps → Opener.ofContent? l.content = none := by
  induction ps generalizing k with
  | nil => simp
  | cons p ps ih =>
    cases p with
    | line m =>
      have htail := ih (k := k + 1) fun i l o hl ho => by
        have hc := h (i + 1) l o (by simpa using hl) ho
        rwa [blocksFrom, ← Nat.add_assoc, Nat.add_right_comm] at hc
      intro l hl
      rcases List.mem_cons.1 hl with heq | hl
      · obtain rfl := Piece.line.inj heq
        rw [Option.eq_none_iff_forall_ne_some]
        intro o ho
        have hc := h 0 l o (by simp) ho
        rw [blocksFrom, isCovered_blocksFrom_of_lt (by omega)] at hc
        contradiction
      · exact htail l hl
    | fenced f =>
      intro l hl
      refine ih (k := k + 2 + f.body.length) (fun i l o hl ho => ?_) l (by simpa using hl)
      have hs : (lines (.fenced f :: ps))[f.body.length + 2 + i]? = some l := by
        rw [lines_fenced, ← hl, List.append_cons, ← List.cons_append,
          List.getElem?_append_right (by simp)]
        congr 1
        simp only [List.length_cons, List.length_append, List.length_nil]
        omega
      have hc := h (f.body.length + 2 + i) l o hs ho
      have hk : k + (f.body.length + 2 + i) = k + 2 + f.body.length + i := by omega
      have hout : ¬ k + 2 + f.body.length + i ≤ k + 1 + f.body.length := by omega
      rw [hk, blocksFrom, isCovered, List.any_cons] at hc
      simpa [hout, isCovered] using hc

/-- A layout in which no line of text opens a fence can stand before any other. -/
theorem Proper.append {ps qs : Layout} (hp : Proper ps) (hq : Proper qs)
    (hn : ∀ l, Piece.line l ∈ ps → Opener.ofContent? l.content = none) : Proper (ps ++ qs) := by
  induction ps with
  | nil => exact hq
  | cons p ps ih =>
    have hn' : ∀ l, Piece.line l ∈ ps → Opener.ofContent? l.content = none :=
      fun l hl => hn l (List.mem_cons_of_mem p hl)
    cases p with
    | line l =>
      refine ⟨?_, ih hp.2 hn'⟩
      intro o ho
      rw [hn l List.mem_cons_self] at ho
      contradiction
    | fenced f => exact ⟨hp.1, ih hp.2 hn'⟩

end Layout

namespace Text.IsSection

variable {t : Text}

theorem exists_proper (h : t.IsSection) (u : Text) :
    ∃ ps qs : Layout, ps.lines = t.splitLines ∧ qs.lines = u.splitLines ∧ ps.Proper ∧ qs.Proper ∧
      (ps ++ qs : Layout).lines = (t ++ u).splitLines ∧ Layout.Proper (ps ++ qs) := by
  obtain ⟨ps, hl, hp⟩ := Layout.exists_proper t.splitLines
  obtain ⟨qs, hm, hq⟩ := Layout.exists_proper u.splitLines
  refine ⟨ps, qs, hl, hm, hp, hq, ?_, hp.append hq ?_⟩
  · rw [Layout.lines_append, hl, hm, Text.splitLines_append h.ended]
  · refine Layout.ofContent?_of_enclosed (k := 0) fun i l o hs ho => ?_
    rw [Nat.zero_add]
    change isCovered ps.blocks i
    rw [hp.blocks_eq hl]
    exact h.enclosed i l o (hl ▸ hs) ho

theorem blocks_append (h : t.IsSection) (u : Text) :
    (t ++ u).blocks = t.blocks ++ u.blocks.map (·.down t.splitLines.length) := by
  obtain ⟨ps, qs, hl, hm, hp, hq, hlines, happ⟩ := h.exists_proper u
  rw [← happ.blocks_eq hlines, ← hp.blocks_eq hl, ← hq.blocks_eq hm, Layout.blocks,
    Layout.blocksFrom_append, hl, Layout.blocksFrom_add]
  rfl

end Text.IsSection

section Down

variable (rule : HeaderRule) (f : Formatter σ) (b : Block) (n : Nat)

theorem Block.location_down :
    (b.down n).location = { b.location with line := b.location.line + n } := by
  simp only [location, down, Location.ofIndex, Location.ofLine, Nat.add_right_comm]

theorem Block.formatError_down (first : Nat) (e : FormatError) :
    (b.down n).formatError first e = (b.formatError first e).down n := by
  cases e with
  | failed reason =>
    simp only [formatError, BlockError.new, location_down, BlockError.down, Option.map_none]
  | unparsable line column reason =>
    simp only [formatError, BlockError.new, BlockError.withPosition, location_down,
      BlockError.down, Option.map_some, Location.withColumn, Location.down,
      wrapWord_wrapWord_add, wrapWord_add_wrapWord, Nat.add_right_comm]

theorem Block.formatRun_down (options : FormatOptions) (newline : Ending) (first : Nat)
    (run : List BodyLine) (s : σ) :
    (b.down n).formatRun f options newline first run s =
      { b.formatRun f options newline first run s with
        result := (b.formatRun f options newline first run s).result.mapError (·.down n) } := by
  unfold formatRun
  by_cases hc : (Run.ofLines run).code.isEmpty
  · simp only [hc, if_true]
    rfl
  · simp only [hc, Bool.false_eq_true, if_false]
    cases f.format (Run.ofLines run).source options s with
    | mk result state =>
      cases result with
      | ok answer => rfl
      | error e =>
        simp only [formatError_down]
        rfl

theorem Block.formatSegments_down (options : FormatOptions) (newline : Ending)
    (segs : List Segment) (s : σ) :
    (b.down n).formatSegments f options newline segs s =
      { b.formatSegments f options newline segs s with
        result := (b.formatSegments f options newline segs s).result.mapError (·.down n) } := by
  induction segs generalizing s with
  | nil => rfl
  | cons seg segs ih =>
    cases seg with
    | artifact l =>
      simp only [formatSegments, ih]
      cases (b.formatSegments f options newline segs s).result <;> rfl
    | source first run =>
      simp only [formatSegments, formatRun_down]
      cases (b.formatRun f options newline first run s).result with
      | error e => rfl
      | ok text =>
        simp only [Except.mapError, ih]
        cases (b.formatSegments f options newline segs _).result <;> rfl

/-- A block whose body stands further down fails as it does where it was, at a place further down,
and gets the same text if it does not. -/
theorem Block.format_down {ls ms : List Line} (h : (b.down n).body ms = b.body ls)
    (options : FormatOptions) (s : σ) :
    ((b.down n).format rule f options ms s).result =
        (b.format rule f options ls s).result.mapError (·.down n) ∧
      ((b.down n).format rule f options ms s).state = (b.format rule f options ls s).state := by
  have hk : (b.down n).kind = b.kind := rfl
  have hi : (b.down n).indent = b.indent := rfl
  unfold format
  simp only [h, hk, hi, formatSegments_down]
  cases Body.classify rule b.kind b.indent (b.body ls) with
  | error fault =>
    refine ⟨?_, rfl⟩
    simp only [Except.mapError, BlockError.new, location_down, BlockError.down, Option.map_none]
  | ok c =>
    cases hr : (b.formatSegments f options (newlineOf c.lines) (segments c.lines) s).result with
    | error e => simp [hr, Except.mapError]
    | ok text => simp [hr, Except.mapError]

variable (options : RunOptions)

theorem Block.visit_down {ls ms : List Line} (h : (b.down n).body ms = b.body ls) (s : σ) :
    (b.down n).newBody rule f options ms s = b.newBody rule f options ls s ∧
      (b.down n).error? rule f options ms s = (b.error? rule f options ls s).map (·.down n) ∧
      (b.down n).stateAfter rule f options ms s = b.stateAfter rule f options ls s := by
  have hw : (b.down n).isWrittenIn options.languages = b.isWrittenIn options.languages := rfl
  obtain ⟨hr, hs⟩ := b.format_down rule f n h options.format s
  simp only [newBody, error?, stateAfter, hw, hr, hs, h]
  cases (b.format rule f options.format ls s).result <;>
    cases b.isWrittenIn options.languages <;> simp [Except.mapError]

theorem visits_down {ls ms : List Line} {bs : List Block}
    (h : ∀ b ∈ bs, (b.down n).body ms = b.body ls) (s : σ) :
    visits rule f options ms (bs.map (·.down n)) s =
      (visits rule f options ls bs s).map fun v => (v.1.down n, v.2) := by
  induction bs generalizing s with
  | nil => rfl
  | cons b bs ih =>
    obtain ⟨hb, hbs⟩ := List.forall_mem_cons.1 h
    rw [List.map_cons, visits, visits, (b.visit_down rule f n options hb s).2.2, ih hbs,
      List.map_cons]

theorem Block.offered_down {ls ms : List Line} (h : (b.down n).body ms = b.body ls)
    (languages : List Text) :
    (b.down n).offered rule languages ms = b.offered rule languages ls := by
  unfold offered sources
  rw [h]
  rfl

end Down

theorem Formatter.feedAll_append (f : Formatter σ) (options : FormatOptions)
    (tss uss : List (List Text)) (s : σ) :
    f.feedAll options (tss ++ uss) s =
      ((f.feedAll options tss s).1 ++ (f.feedAll options uss (f.feedAll options tss s).2).1,
        (f.feedAll options uss (f.feedAll options tss s).2).2) := by
  induction tss generalizing s with
  | nil => rfl
  | cons ts tss ih => simp [feedAll, ih]

theorem visits_append (rule : HeaderRule) (f : Formatter σ) (options : RunOptions)
    (lines : List Line) (bs cs : List Block) (s : σ) :
    visits rule f options lines (bs ++ cs) s =
      visits rule f options lines bs s ++ visits rule f options lines cs
        (f.feedAll options.format (bs.map (·.offered rule options.languages lines)) s).2 := by
  induction bs generalizing s with
  | nil => rfl
  | cons b bs ih =>
    rw [List.cons_append, visits, ih, visits, List.cons_append, Block.stateAfter_eq]
    rfl

namespace Block

theorem body_append_of_le {b : Block} {ls : List Line} (h : b.endLine ≤ ls.length)
    (ms : List Line) : b.body (ls ++ ms) = b.body ls := by
  unfold body bodyLength
  by_cases hs : b.startLine ≤ ls.length
  · rw [List.drop_append_of_le_length hs, List.take_append_of_le_length]
    rw [List.length_drop]
    omega
  · have hz : b.endLine - b.startLine = 0 := by omega
    rw [hz, List.take_zero, List.take_zero]

theorem body_down_append (b : Block) (ls ms : List Line) :
    (b.down ls.length).body (ls ++ ms) = b.body ms := by
  have hs : (b.down ls.length).startLine = ls.length + b.startLine := by
    simp only [startLine, down]
    omega
  have hl : (b.down ls.length).bodyLength = b.bodyLength := by
    simp only [bodyLength, startLine, down]
    omega
  rw [body, hs, hl, List.drop_length_add_append]
  rfl

end Block

theorem Text.endLine_lt_of_mem_blocks {t : Text} {b : Block} (h : b ∈ t.blocks) :
    b.endLine < t.splitLines.length := by
  obtain ⟨ps, hl, hp⟩ := Layout.exists_proper t.splitLines
  rw [← hp.blocks_eq hl] at h
  have hb := (Layout.fenceLine_of_mem_blocksFrom h).2.2
  rwa [Nat.zero_add, hl] at hb

namespace Text.IsSection

variable {t : Text} (h : t.IsSection) (u : Text)

include h

theorem body_append {b : Block} (hb : b ∈ t.blocks) :
    (b.down 0).body (t ++ u).splitLines = b.body t.splitLines := by
  rw [Text.splitLines_append h.ended]
  exact Block.body_append_of_le (Nat.le_of_lt (Text.endLine_lt_of_mem_blocks hb)) u.splitLines

theorem body_down_append (b : Block) :
    (b.down t.splitLines.length).body (t ++ u).splitLines = b.body u.splitLines := by
  rw [Text.splitLines_append h.ended]
  exact b.body_down_append t.splitLines u.splitLines

variable (rule : HeaderRule) (options : RunOptions)

theorem offered_append :
    ((t ++ u).blocks.map (·.offered rule options.languages (t ++ u).splitLines)) =
      t.blocks.map (·.offered rule options.languages t.splitLines) ++
        u.blocks.map (·.offered rule options.languages u.splitLines) := by
  rw [h.blocks_append, List.map_append, List.map_map]
  congr 1
  · exact List.map_congr_left fun b hb =>
      b.offered_down rule 0 (h.body_append u hb) options.languages
  · exact List.map_congr_left fun b _ =>
      b.offered_down rule t.splitLines.length (h.body_down_append u b) options.languages

/-- The blocks of the second text are met as in a run that finds the formatter in the state in which
the first text leaves it. -/
theorem visits_append (f : Formatter σ) (s : σ) :
    visits rule f options (t ++ u).splitLines (t ++ u).blocks s =
      (visits rule f options t.splitLines t.blocks s).map (fun v => (v.1.down 0, v.2)) ++
        (visits rule f options u.splitLines u.blocks (f.feedAll options.format
          (t.blocks.map (·.offered rule options.languages t.splitLines)) s).2).map
          fun v => (v.1.down t.splitLines.length, v.2) := by
  have hid : t.blocks.map (·.down 0) = t.blocks := List.map_id t.blocks
  have hoff : (t.blocks.map (·.offered rule options.languages (t ++ u).splitLines)) =
      t.blocks.map (·.offered rule options.languages t.splitLines) :=
    List.map_congr_left fun b hb => b.offered_down rule 0 (h.body_append u hb) options.languages
  rw [h.blocks_append, FencedCode.visits_append, hoff,
    visits_down rule f _ options (fun b _ => h.body_down_append u b),
    ← visits_down rule f 0 options (fun b hb => h.body_append u hb), hid]

end Text.IsSection

/-- A run on two texts, the first of which is a section, is a run on the one and then on the other.
A formatter without a state formats the second text as if it stood alone. -/
theorem formatWith_append (rule : HeaderRule) (f : Formatter σ) (options : RunOptions) (t u : Text)
    (s : σ) (hv : options.format.validate = .ok ()) (ht : t.IsSection) :
    (t ++ u).blocks = t.blocks ++ u.blocks.map (·.down t.splitLines.length) ∧
      ∃ r₁ r₂ r s₁ s₂, formatWith rule f options t s = (.ok r₁, s₁) ∧
        formatWith rule f options u s₁ = (.ok r₂, s₂) ∧
        formatWith rule f options (t ++ u) s = (.ok r, s₂) ∧
        RunResult.Joins t.splitLines.length r₁ r₂ r := by
  have hblocks := ht.blocks_append u
  obtain ⟨ps, qs, hl, hm, hp, hq, hlines, happ⟩ := ht.exists_proper u
  obtain ⟨r₁, s₁, hr₁, -, ht₁, he₁, hs₁, hn₁⟩ := formatWith_eq_ok rule f t s hv
  obtain ⟨r₂, s₂, hr₂, -, ht₂, he₂, hs₂, hn₂⟩ := formatWith_eq_ok rule f u s₁ hv
  obtain ⟨r, s₃, hr, -, ht₃, he₃, hs₃, hn₃⟩ := formatWith_eq_ok rule f (t ++ u) s hv
  have hfed₁ := formatWith_feed rule f hr₁
  have hfed₂ := formatWith_feed rule f hr₂
  have hfed := formatWith_feed rule f hr
  rw [ht.offered_append, Formatter.feedAll_append, ← hfed₁, ← hfed₂] at hfed
  obtain ⟨hcalls, rfl⟩ := Prod.mk.inj hfed
  have hvisits := ht.visits_append u rule options f s
  rw [← hfed₁] at hvisits
  refine ⟨hblocks, r₁, r₂, r, s₁, s₃, hr₁, hr₂, hr, ?_, ?_, ?_, ?_, hcalls⟩
  · have hlen := congrArg List.length (hp.map_visits rule f options s hl fun _ _ _ => ())
    rw [List.length_map, List.length_map] at hlen
    rw [ht₃ _ hlines happ, ht₁ ps hl hp, ht₂ qs hm hq, hvisits, List.map_append, List.map_map,
      List.map_map, ← Layout.render_append _ _ (by rwa [List.length_map])]
    congr 2
    · refine List.map_congr_left fun v hv => ?_
      have hb := ht.body_append u (mem_blocks_of_mem_visits hv)
      exact (v.1.visit_down rule f 0 options hb v.2).1
    · refine List.map_congr_left fun v _ => ?_
      exact (v.1.visit_down rule f _ options (ht.body_down_append u v.1) v.2).1
  · rw [he₃, he₁, he₂, hvisits, List.filterMap_append, List.filterMap_map, List.filterMap_map,
      List.map_filterMap]
    congr 1
    · -- both errors are those of the block where it stands, no line further down
      refine List.filterMap_congr fun v hv => ?_
      have hb := ht.body_append u (mem_blocks_of_mem_visits hv)
      exact (v.1.visit_down rule f 0 options hb v.2).2.1.trans
        (v.1.visit_down rule f 0 options rfl v.2).2.1.symm
    · refine List.filterMap_congr fun v _ => ?_
      exact (v.1.visit_down rule f _ options (ht.body_down_append u v.1) v.2).2.1
  · rw [hs₃, hs₁, hs₂, hblocks, List.length_append, List.length_map]
  · rw [hn₃, hn₁, hn₂, hblocks, List.filter_append, List.length_append, List.filter_map,
      List.length_map]
    rfl

/-- A section with a fence in the body of a block, where it is no danger to what follows. -/
def enclosedFence : Text := "# a\n~~~py\nx=(\n```\n~~~\n".toList

/-- A text that begins with a fence which is never closed. -/
def looseFence : Text := "```\nb\n  ~~~ py\n  !ls \n  y=(\n  ~~~\n".toList

/-- Refuses code with a bracket in it, at a line close to the last one that a word can count. -/
def bracketless : Formatter Unit :=
  .pure fun source _ =>
    if '(' ∈ source then .error (.unparsable 18446744073709551610 3 "eof") else .ok source

theorem isSection_enclosedFence : enclosedFence.IsSection where
  ended := .inr (by decide +kernel)
  enclosed := by
    have hd : ∀ p ∈ enclosedFence.splitLines.zipIdx, (Opener.ofContent? p.1.content).isSome →
        isCovered enclosedFence.blocks p.2 := by
      decide +kernel
    intro i l o hl ho
    exact hd (l, i) (List.mk_mem_zipIdx_iff_getElem?.2 hl) (by rw [ho]; rfl)

/-- Each of the two texts has a block that is refused. Below the lines of the first text, the
position of the second error wraps around. -/
theorem formatWith_append_looseFence :
    (({} : RunOptions).format.validate = .ok () ∧ enclosedFence.IsSection) ∧
      (enclosedFence ++ looseFence).blocks =
        enclosedFence.blocks ++ looseFence.blocks.map (·.down enclosedFence.splitLines.length) ∧
      ∃ r₁ r₂ r s₁ s₂, formatWith Header.rule bracketless {} enclosedFence () = (.ok r₁, s₁) ∧
        formatWith Header.rule bracketless {} looseFence s₁ = (.ok r₂, s₂) ∧
        formatWith Header.rule bracketless {} (enclosedFence ++ looseFence) () = (.ok r, s₂) ∧
        RunResult.Joins enclosedFence.splitLines.length r₁ r₂ r ∧
        r₂.errors.map (·.position) = [some ⟨none, 18446744073709551614, 3⟩] ∧
        r.errors.map (·.position) =
          [some ⟨none, 18446744073709551612, 3⟩, some ⟨none, 3, 3⟩] := by
  obtain ⟨hblocks, r₁, r₂, r, s₁, s₂, h₁, h₂, h, hjoins⟩ :=
    formatWith_append Header.rule bracketless {} enclosedFence looseFence () rfl
      isSection_enclosedFence
  have he₂ : (formatWith Header.rule bracketless {} looseFence ()).1.map
      (·.errors.map (·.position)) = .ok [some ⟨none, 18446744073709551614, 3⟩] := by
    decide +kernel
  have he : (formatWith Header.rule bracketless {} (enclosedFence ++ looseFence) ()).1.map
      (·.errors.map (·.position)) =
        .ok [some ⟨none, 18446744073709551612, 3⟩, some ⟨none, 3, 3⟩] := by
    decide +kernel
  rw [h₂] at he₂
  rw [h] at he
  exact ⟨⟨rfl, isSection_enclosedFence⟩, hblocks, r₁, r₂, r, s₁, s₂, h₁, h₂, h, hjoins,
    Except.ok.inj he₂, Except.ok.inj he⟩

end FencedCode
