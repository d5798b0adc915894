import FencedCode.Proofs.Feeding
import FencedCode.Proofs.Results
import FencedCode.Proofs.Written

/-! Errors of the formatter in terms of the document. A formatter counts the lines of the source
that it is given; the error of the block names the line of the document which this one is. -/
namespace FencedCode

variable {σ : Type}

section Faults

variable {rule : HeaderRule} {kind : BlockKind} {indent : Text}

theorem Phase.fault_of_step {p : Phase} {t : Text} {fault : BlockFault}
    (h : p.step rule kind t = .error fault) :
    (∃ e, fault = .magic e) ∨ ∃ e, fault = .options e := by
  obtain ⟨-, hs⟩ | ⟨-, hs⟩ | ⟨-, ⟨n, hs⟩ | ⟨e, hs⟩⟩ := p.step_cases rule kind t
  · rw [hs] at h
    split at h
    · contradiction
    · next e _ => exact .inl ⟨e, (Except.error.inj h).symm⟩
  · simp [hs] at h
  · simp [hs] at h
  · rw [hs] at h
    exact .inr ⟨e, (Except.error.inj h).symm⟩

theorem fault_of_lineTags {k : LineKind} {t : Text} {fault : BlockFault}
    (h : lineTags k t = .error fault) : ∃ e, fault = .tags e := by
  unfold lineTags at h
  split at h
  · split at h
    · contradiction
    · next e _ => exact ⟨e, (Except.error.inj h).symm⟩
  · contradiction

/-- A body that cannot be read has a fault of its own, which is none of the formatter. -/
theorem Body.fault_of_classifyFrom {phase : Phase} {ls : List Line} {fault : BlockFault}
    (h : classifyFrom rule kind indent phase ls = .error fault) (e : FormatError) :
    fault ≠ .format e := by
  induction ls generalizing phase with
  | nil =>
    rw [classifyFrom_nil] at h
    split at h
    · rw [← Except.error.inj h]
      simp
    · contradiction
  | cons l ls ih =>
    simp only [classifyFrom, Except.bind_eq_error_iff] at h
    rcases h with h | ⟨r, -, h | ⟨tags, -, h | ⟨rest, -, h⟩⟩⟩
    · obtain ⟨e, rfl⟩ | ⟨e, rfl⟩ := Phase.fault_of_step h <;> simp
    · obtain ⟨e, rfl⟩ := fault_of_lineTags h
      simp
    · exact ih h
    · contradiction

end Faults

namespace Block

variable {b : Block} {f : Formatter σ} {options : FormatOptions} {newline : Ending} {s : σ}
  {err : BlockError}

/-- The call that ends the formatting of a run is its only one. -/
theorem formatRun_refused {first : Nat} {run : List BodyLine}
    (h : (b.formatRun f options newline first run s).result = .error err) :
    ∃ e, f.format (Run.ofLines run).source options s =
        (.error e, (b.formatRun f options newline first run s).state) ∧
      err = b.formatError (first + (Run.ofLines run).leading.length) e ∧
      (b.formatRun f options newline first run s).events.filterMap Event.call? =
        [(Run.ofLines run).source] := by
  rw [formatRun] at h ⊢
  by_cases hc : (Run.ofLines run).code = []
  · simp [hc] at h
  · simp only [List.isEmpty_iff, hc, if_false] at h ⊢
    cases hf : f.format (Run.ofLines run).source options s with
    | mk result state =>
      rw [hf] at h
      cases result with
      | ok answer => contradiction
      | error e =>
        refine ⟨e, rfl, (Except.error.inj h).symm, ?_⟩
        simp only [List.filterMap_cons, Event.call?, filterMap_call?_map_remarked]

/-- The call that ends the formatting of a body is the last one, with the source of a run of the
body. -/
theorem formatSegments_refused {segs : List Segment}
    (h : (b.formatSegments f options newline segs s).result = .error err) :
    ∃ first run e s', .source first run ∈ segs ∧
      f.format (Run.ofLines run).source options s' =
        (.error e, (b.formatSegments f options newline segs s).state) ∧
      err = b.formatError (first + (Run.ofLines run).leading.length) e ∧
      ((b.formatSegments f options newline segs s).events.filterMap Event.call?).getLast? =
        some (Run.ofLines run).source := by
  induction segs generalizing s with
  | nil => contradiction
  | cons seg segs ih =>
    cases seg with
    | artifact l =>
      rw [formatSegments_artifact_result, Except.map_eq_error_iff] at h
      obtain ⟨first, run, e, s', hm, hf, he, hc⟩ := ih h
      exact ⟨first, run, e, s', List.mem_cons_of_mem _ hm, hf, he, hc⟩
    | source first run =>
      cases ha : (b.formatRun f options newline first run s).result with
      | error err' =>
        rw [formatSegments_source_of_error ha] at h
        obtain ⟨e, hf, he, hc⟩ := formatRun_refused ha
        refine ⟨first, run, e, s, List.mem_cons_self, ?_, ?_, ?_⟩
        · rw [formatSegments, ha]
          exact hf
        · rw [← Except.error.inj h]
          exact he
        · rw [formatSegments, ha]
          simp only [hc, List.getLast?_singleton]
      | ok text =>
        rw [(formatSegments_source_of_ok ha segs).1, Except.map_eq_error_iff] at h
        obtain ⟨first', run', e, s', hm, hf, he, hc⟩ := ih h
        refine ⟨first', run', e, s', List.mem_cons_of_mem _ hm, ?_, he, ?_⟩
        · rw [formatSegments, ha]
          exact hf
        · rw [formatSegments, ha]
          simp only [List.filterMap_append, List.getLast?_append, hc, Option.some_or]

end Block

/-- The number of a source segment is the place of its first line in the body. -/
theorem exists_append_of_mem_segmentsFrom {first i : Nat} {run ls : List BodyLine}
    (h : .source first run ∈ segmentsFrom i ls) :
    ∃ before after, ls = before ++ (run ++ after) ∧ first = i + before.length := by
  induction ls using bodyInduction generalizing i with
  | nil => simp [segmentsFrom] at h
  | artifact l ls hl ih =>
    rw [segmentsFrom_artifact hl, List.mem_cons] at h
    obtain ⟨before, after, rfl, rfl⟩ := ih (h.resolve_left (by simp))
    exact ⟨l :: before, after, rfl, by rw [List.length_cons]; omega⟩
  | run run' tail hr hs ht ih =>
    rw [segmentsFrom_run hr hs ht, List.mem_cons, Segment.source.injEq] at h
    rcases h with ⟨rfl, rfl⟩ | h
    · exact ⟨[], tail, rfl, rfl⟩
    · obtain ⟨before, after, rfl, rfl⟩ := ih h
      exact ⟨run' ++ before, after, by rw [List.append_assoc],
        by rw [List.length_append]; omega⟩

theorem Block.getElem?_of_body {b : Block} {lines : List Line} {i : Nat} {l : Line}
    (h : (b.body lines)[i]? = some l) :
    b.startLine + i < b.endLine ∧ lines[b.startLine + i]? = some l := by
  rw [body, List.getElem?_take] at h
  split at h
  · next hi =>
    rw [List.getElem?_drop] at h
    rw [bodyLength] at hi
    exact ⟨by omega, h⟩
  · contradiction

theorem Run.cutLines_source {r : Run} (h : ∀ l ∈ r.code, '\n' ∉ l.text) :
    r.source.cutLines = r.code.map (·.text ++ ['\n']) := by
  rw [source_eq, Text.cutLines_flatMap_lf (List.forall_mem_map.2 h), List.map_map]
  rfl

/-- The lines of a source are found in the body that it is taken from. -/
theorem getElem?_of_cutLines {first i : Nat} {run ls : List BodyLine} {t : Text}
    (hm : .source first run ∈ segments ls) (hu : ∀ l ∈ ls, '\n' ∉ l.text)
    (ht : (Run.ofLines run).source.cutLines[i]? = some t) :
    ∃ l, ls[first + (Run.ofLines run).leading.length + i]? = some l ∧ t = l.text ++ ['\n'] := by
  obtain ⟨before, after, hls, rfl⟩ := exists_append_of_mem_segmentsFrom hm
  have hcut : ls = (before ++ (Run.ofLines run).leading) ++
      ((Run.ofLines run).code ++ ((Run.ofLines run).trailing ++ after)) := by
    rw [hls]
    conv_lhs => rw [← Run.ofLines_append run]
    simp
  have hcode : ∀ l ∈ (Run.ofLines run).code, '\n' ∉ l.text := by
    intro l hl
    refine hu l ?_
    rw [hcut]
    simp [hl]
  rw [Run.cutLines_source hcode, List.getElem?_map, Option.map_eq_some_iff] at ht
  obtain ⟨l, hl, rfl⟩ := ht
  refine ⟨l, ?_, rfl⟩
  have hi := (List.getElem?_eq_some_iff.1 hl).1
  rw [hcut, Nat.zero_add, ← List.length_append, List.getElem?_append_right (Nat.le_add_right _ i),
    Nat.add_sub_cancel_left, List.getElem?_append_left hi]
  exact hl

/-- If a block fails because the formatter cannot parse a source, this is the last source that the
formatter was given, and the error is reported at the block's fence. Its position is the place in
the document which the formatter means, as long as the source has a line of the given number: a line
between the fences that, without its ending and the block's indentation, is that line of the
source. A word holds the number of the line, and all of it if the lines of the block can be counted
in words. -/
theorem Block.format_error_position (rule : HeaderRule) (f : Formatter σ) (options : FormatOptions)
    (text : Text) (b : Block) (s : σ) (err : BlockError) (line column : Nat) (reason : String)
    (hb : b ∈ text.blocks) (h : (b.format rule f options text.splitLines s).result = .error err)
    (hf : err.fault = .format (.unparsable line column reason)) :
    ∃ source s',
      ((b.format rule f options text.splitLines s).events.filterMap Event.call?).getLast? =
        some source ∧
      f.format source options s' = (.error (.unparsable line column reason),
        (b.format rule f options text.splitLines s).state) ∧
      err.location = .ofLine (b.fenceLine + 1) ∧
      (1 ≤ line → line ≤ source.cutLines.length →
        ∃ p l, err.position = some ⟨none, wrapWord p, column⟩ ∧
          (fitsWord b.endLine → err.position = some ⟨none, p, column⟩) ∧
          b.startLine < p ∧ p ≤ b.endLine ∧ text.splitLines[p - 1]? = some l ∧
          source.cutLines[line - 1]? = some (Text.stripIndent b.indent l.content ++ ['\n'])) := by
  obtain ⟨ho, hw⟩ := Text.wellFormed_of_mem_blocks b hb
  rw [format] at h ⊢
  cases hc : Body.classify rule b.kind b.indent (b.body text.splitLines) with
  | error fault =>
    rw [hc] at h
    obtain rfl := Except.error.inj h
    exact absurd hf (Body.fault_of_classifyFrom hc _)
  | ok c =>
    rw [hc] at h
    cases hr : (b.formatSegments f options (newlineOf c.lines) (segments c.lines) s).result with
    | ok new =>
      simp only [hr] at h
      contradiction
    | error err' =>
      simp only [hr] at h ⊢
      obtain rfl := Except.error.inj h
      obtain ⟨first, run, e, s', hm, hcall, he, hlast⟩ := formatSegments_refused hr
      obtain rfl : e = .unparsable line column reason := by
        rw [he] at hf
        cases e <;> exact BlockFault.format.inj hf
      obtain ⟨hl, last, hread, -⟩ := Body.classify_eq_ok hc
      have hu : ∀ l ∈ c.lines, '\n' ∉ l.text := fun l hm =>
        BodyLine.unbroken_text ho.indent (hw _ (Body.line_mem_of_classify hc hm))
          (hread.text_of_mem l hm)
      refine ⟨_, s', hlast, hcall, he ▸ b.formatError_location _ _, fun h₁ h₂ => ?_⟩
      have ht := List.getElem?_eq_getElem (Nat.lt_of_lt_of_le (Nat.sub_one_lt_of_lt h₁) h₂)
      obtain ⟨l, hi, htext⟩ := getElem?_of_cutLines hm hu ht
      have hbody : (b.body text.splitLines)[
          first + (Run.ofLines run).leading.length + (line - 1)]? = some l.line := by
        rw [← hl, List.getElem?_map, hi]
        rfl
      obtain ⟨hlt, hdoc⟩ := getElem?_of_body hbody
      -- lines are counted from one in the source and in the position, from zero in the body
      have hp : b.startLine + (first + (Run.ofLines run).leading.length + (line - 1)) + 1 =
          b.fenceLine + 1 + (1 + (first + (Run.ofLines run).leading.length) + (line - 1)) := by
        rw [startLine]
        omega
      have hpos : err'.position = some ⟨none, wrapWord (b.startLine +
          (first + (Run.ofLines run).leading.length + (line - 1)) + 1), column⟩ := by
        rw [he, hp, ← wrapWord_add_wrapWord]
        rfl
      refine ⟨_, l.line, hpos, fun hfits => ?_, by omega, hlt, ?_, ?_⟩
      · rw [hpos, wrapWord_of_fits (fitsWord_of_le hfits hlt)]
      · rw [Nat.add_sub_cancel]
        exact hdoc
      · rw [ht, htext, hread.text_of_mem l (List.mem_of_getElem? hi)]
        rfl

/-- A document with a block whose second source starts behind a blank line. -/
def brokenDocument : Text :=
  "# a\n  ```py\n  a=1\n  !ls\n\n  x = 1\n y = (\n\n  ```\n".toList

def brokenBlock : Block := ⟨1, 8, ⟨[' ', ' '], ⟨'\x60', 3⟩, ['p', 'y']⟩, []⟩

/-- The formatter takes the first source of the block, and not the second. -/
def brokenAttempt : Attempt (List (Except FormatError Text)) FormattedBlock :=
  brokenBlock.format Header.rule Formatter.prepared {} brokenDocument.splitLines
    [.ok "a = 1\n".toList, .error (.unparsable 2 5 "eof")]

/-- The second line of the second source is the seventh line of the document. -/
theorem format_error_position_brokenBlock :
    brokenBlock ∈ brokenDocument.blocks ∧
      brokenAttempt.result =
        .error ⟨.ofLine 2, some ⟨none, 7, 5⟩, .format (.unparsable 2 5 "eof")⟩ ∧
      ∃ source s', (brokenAttempt.events.filterMap Event.call?).getLast? = some source ∧
        Formatter.prepared.format source {} s' =
          (.error (.unparsable 2 5 "eof"), brokenAttempt.state) ∧
        ∃ p l, some (⟨none, 7, 5⟩ : Location) = some ⟨none, wrapWord p, 5⟩ ∧
          (fitsWord brokenBlock.endLine → some (⟨none, 7, 5⟩ : Location) = some ⟨none, p, 5⟩) ∧
          brokenBlock.startLine < p ∧ p ≤ brokenBlock.endLine ∧
          brokenDocument.splitLines[p - 1]? = some l ∧
          source.cutLines[1]? = some (Text.stripIndent brokenBlock.indent l.content ++ ['\n']) := by
  have hb : brokenBlock ∈ brokenDocument.blocks := by decide +kernel
  have h : brokenAttempt.result =
      .error ⟨.ofLine 2, some ⟨none, 7, 5⟩, .format (.unparsable 2 5 "eof")⟩ := by
    decide +kernel
  have hsource : (brokenAttempt.events.filterMap Event.call?).getLast? =
      some "x = 1\ny = (\n".toList := by
    decide +kernel
  obtain ⟨source, s', hlast, hcall, -, hp⟩ := Block.format_error_position Header.rule
    Formatter.prepared {} brokenDocument brokenBlock _ _ 2 5 "eof" hb h rfl
  refine ⟨hb, h, source, s', hlast, hcall, hp (by decide) ?_⟩
  rw [← Option.some.inj (hsource.symm.trans hlast)]
  decide +kernel

end FencedCode
