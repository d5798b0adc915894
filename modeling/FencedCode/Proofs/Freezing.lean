import FencedCode.Proofs.Frame
import FencedCode.Proofs.Reading

/-! Cell magics freeze what follows them. Whatever lines are put behind a cell magic, the rest of
the body is formatted as if they were not there, and they come out as they went in. -/
namespace FencedCode

variable {σ : Type}

/-- A line behind a cell magic. -/
def Line.frozen (indent : Text) (l : Line) : BodyLine :=
  ⟨.frozen, l.content, Text.stripIndent indent l.content, l.ending⟩

/-- The attempt with its value changed. -/
def Attempt.map {α β : Type} (g : α → β) (a : Attempt σ α) : Attempt σ β :=
  ⟨a.result.map g, a.events, a.state⟩

section Classify

variable {rule : HeaderRule} {kind : BlockKind} {indent : Text}

theorem Phase.eq_frozen_of_ofKind {b : Bool} {k : LineKind} {next : Phase}
    (h : ofKind b k = (.cellMagic, next)) : next = .frozen := by
  cases k <;> cases b <;> cases h <;> rfl

theorem Phase.eq_frozen_of_step {p next : Phase} {t : Text}
    (h : p.step rule kind t = .ok (.cellMagic, next)) : next = .frozen := by
  obtain ⟨-, hs⟩ | ⟨-, hs⟩ | ⟨-, ⟨n, hs⟩ | ⟨e, hs⟩⟩ := p.step_cases rule kind t
  · rw [hs] at h
    split at h
    · exact eq_frozen_of_ofKind (Except.ok.inj h)
    · contradiction
  all_goals simp [hs] at h

namespace Body

theorem classifyFrom_frozen (ls : List Line) :
    classifyFrom rule kind indent .frozen ls = .ok ⟨ls.map (Line.frozen indent), none⟩ := by
  induction ls with
  | nil => rfl
  | cons l ls ih =>
    rw [classifyFrom_cons_eq_ok_iff]
    exact ⟨.frozen, .frozen, none, _, rfl, rfl, ih, rfl⟩

/-- Lines behind a cell magic are read without a fault and have no tags. -/
theorem classifyFrom_append {phase : Phase} {pre : List Line} {m : Line} {c : Body}
    (h : classifyFrom rule kind indent phase (pre ++ [m]) = .ok c)
    (hm : c.lines.getLast?.map BodyLine.kind = some .cellMagic) (rest : List Line) :
    classifyFrom rule kind indent phase (pre ++ m :: rest) =
      .ok ⟨c.lines ++ rest.map (Line.frozen indent), c.tags⟩ := by
  induction pre generalizing phase c with
  | nil =>
    obtain ⟨k, next, tags, c', hs, ht, hc', rfl⟩ := classifyFrom_cons_eq_ok_iff.1 h
    obtain rfl : c' = ⟨[], none⟩ := by
      rw [classifyFrom_nil] at hc'
      split at hc'
      · contradiction
      · exact (Except.ok.inj hc').symm
    obtain rfl : k = .cellMagic := by simpa using hm
    obtain rfl := Phase.eq_frozen_of_step hs
    rw [List.nil_append, classifyFrom_cons_eq_ok_iff]
    exact ⟨.cellMagic, .frozen, tags, _, hs, ht, classifyFrom_frozen rest, rfl⟩
  | cons l pre ih =>
    rw [List.cons_append] at h
    obtain ⟨k, next, tags, c', hs, ht, hc', rfl⟩ := classifyFrom_cons_eq_ok_iff.1 h
    -- `m` is still to come, so the last line after `l` is the last line of all
    have hn : c'.lines ≠ [] := by
      intro hn
      have hl := (exists_classifyFrom_iff.1 ⟨c'.tags, hc'⟩).1
      simp [hn] at hl
    rw [List.getLast?_cons_of_ne_nil hn] at hm
    rw [List.cons_append, classifyFrom_cons_eq_ok_iff]
    exact ⟨k, next, tags, _, hs, ht, ih hc' hm, rfl⟩

end Body

end Classify

/-- Artifacts at the end of a body are segments of their own. -/
theorem segmentsFrom_append_artifacts {ms : List BodyLine} (hm : ∀ l ∈ ms, l.kind.isArtifact)
    (ls : List BodyLine) (i : Nat) :
    segmentsFrom i (ls ++ ms) = segmentsFrom i ls ++ ms.map .artifact := by
  induction ls using bodyInduction generalizing i with
  | nil =>
    have hs := segmentsFrom_artifacts hm i []
    rw [List.append_nil] at hs
    rw [List.nil_append, hs]
    simp [segmentsFrom]
  | artifact l ls hl ih =>
    rw [List.cons_append, segmentsFrom_artifact hl, segmentsFrom_artifact hl, ih, List.cons_append]
  | run run tail hr hs ht ih =>
    have hh : ∀ l ∈ (tail ++ ms).head?, l.kind.isArtifact := by
      cases tail with
      | nil => exact fun l hl => hm l (List.mem_of_mem_head? hl)
      | cons a tail => exact ht
    rw [List.append_assoc, segmentsFrom_run hr hs hh, segmentsFrom_run hr hs ht, ih,
      List.cons_append]

namespace Block

variable (f : Formatter σ) (options : FormatOptions) (newline : Ending)

/-- How a body is formatted depends on the place and the indentation of its block only. -/
theorem formatSegments_congr {b b' : Block} (hf : b'.fenceLine = b.fenceLine)
    (hi : b'.indent = b.indent) (segs : List Segment) (s : σ) :
    b'.formatSegments f options newline segs s = b.formatSegments f options newline segs s := by
  have he : b'.formatError = b.formatError := by
    funext first e
    unfold formatError location
    rw [hf]
  have hr : b'.formatRun f options newline = b.formatRun f options newline := by
    funext first run s
    rw [formatRun, formatRun, he, hi]
  induction segs generalizing s with
  | nil => rfl
  | cons seg segs ih =>
    cases seg with
    | artifact l => rw [formatSegments, formatSegments, ih]
    | source first run =>
      rw [formatSegments, formatSegments, hr]
      simp only [ih]

theorem formatSegments_artifacts (b : Block) (ms : List BodyLine) (s : σ) :
    b.formatSegments f options newline (ms.map .artifact) s =
      ⟨.ok (ms.flatMap fun l => l.preserved ++ l.ending.text), [], s⟩ := by
  induction ms with
  | nil => rfl
  | cons l ms ih =>
    rw [List.map_cons, formatSegments, ih, List.flatMap_cons]
    rfl

/-- Artifacts at the end of a body are put behind what comes before them, if that can be
formatted. -/
theorem formatSegments_append_artifacts (b : Block) (ms : List BodyLine) (segs : List Segment)
    (s : σ) :
    b.formatSegments f options newline (segs ++ ms.map .artifact) s =
      (b.formatSegments f options newline segs s).map
        (· ++ ms.flatMap fun l => l.preserved ++ l.ending.text) := by
  have hmap : ∀ {x : Except BlockError Text} {t u : Text},
      (x.map (· ++ u)).map (t ++ ·) = (x.map (t ++ ·)).map (· ++ u) := by
    intro x t u
    cases x with
    | error e => rfl
    | ok v => simp [Except.map]
  induction segs generalizing s with
  | nil => exact b.formatSegments_artifacts f options newline ms s
  | cons seg segs ih =>
    rw [List.cons_append]
    cases seg with
    | artifact l =>
      rw [formatSegments, formatSegments, ih]
      simp only [Attempt.map, hmap]
    | source first run =>
      rw [formatSegments, formatSegments]
      cases (b.formatRun f options newline first run s).result with
      | error e => rfl
      | ok t => simp only [ih, Attempt.map, hmap]

end Block

theorem flatMap_preserved_frozen (indent : Text) (ls : List Line) :
    ((ls.map (Line.frozen indent)).flatMap fun l => l.preserved ++ l.ending.text) =
      joinLines ls := by
  rw [List.flatMap_map]
  rfl

theorem newlineOf_append {ls : List BodyLine} (h : ls ≠ []) (ms : List BodyLine) :
    newlineOf (ls ++ ms) = newlineOf ls := by
  rw [newlineOf, newlineOf, List.head?_append_of_ne_nil ls h]

/-- Lines behind a cell magic make no difference to the block before them, whatever they are: the
formatter gets the same sources and is left in the same state, and the block fails with the same
error, or it has the same tags and is found changed as before, and the lines stand as they are
behind its new body. -/
theorem Block.format_freezes (rule : HeaderRule) (f : Formatter σ) (options : FormatOptions)
    (b b' : Block) (lines lines' pre rest : List Line) (m : Line) (c : Body) (s : σ)
    (hfence : b'.fenceLine = b.fenceLine) (hindent : b'.indent = b.indent)
    (hkind : b'.kind = b.kind) (hbody : b.body lines = pre ++ [m])
    (hbody' : b'.body lines' = pre ++ m :: rest)
    (hc : Body.classify rule b.kind b.indent (pre ++ [m]) = .ok c)
    (hm : c.lines.getLast?.map BodyLine.kind = some .cellMagic) :
    (b'.format rule f options lines' s).events.filterMap Event.call? =
        (b.format rule f options lines s).events.filterMap Event.call? ∧
      (b'.format rule f options lines' s).state = (b.format rule f options lines s).state ∧
      (b'.format rule f options lines' s).result =
        (b.format rule f options lines s).result.map fun new =>
          { new with body := new.body ++ joinLines rest } := by
  have hn : c.lines ≠ [] := by
    rintro hn
    simp [hn] at hm
  have hc' : Body.classify rule b.kind b.indent (pre ++ m :: rest) =
      .ok ⟨c.lines ++ rest.map (Line.frozen b.indent), c.tags⟩ :=
    Body.classifyFrom_append hc hm rest
  have hsegs : b'.formatSegments f options (newlineOf (c.lines ++ rest.map (Line.frozen b.indent)))
      (segments (c.lines ++ rest.map (Line.frozen b.indent))) s =
      (b.formatSegments f options (newlineOf c.lines) (segments c.lines) s).map
        (· ++ joinLines rest) := by
    have hart : ∀ l ∈ rest.map (Line.frozen b.indent), l.kind.isArtifact :=
      List.forall_mem_map.2 fun _ _ => rfl
    rw [newlineOf_append hn, segments, segmentsFrom_append_artifacts hart,
      formatSegments_congr f options _ hfence hindent, formatSegments_append_artifacts,
      flatMap_preserved_frozen]
    rfl
  rw [format, format, hbody, hbody', hkind, hindent, hc, hc']
  simp only [hsegs, Attempt.map]
  cases (b.formatSegments f options (newlineOf c.lines) (segments c.lines) s).result with
  | error e => exact ⟨rfl, rfl, rfl⟩
  | ok text =>
    have hold : joinLines (pre ++ m :: rest) = joinLines (pre ++ [m]) ++ joinLines rest := by simp
    have hchanged : (text ++ joinLines rest != joinLines (pre ++ m :: rest)) =
        (text != joinLines (pre ++ [m])) := by
      rw [hold, Bool.eq_iff_iff, bne_iff_ne, bne_iff_ne, ne_eq, ne_eq, List.append_left_inj]
    refine ⟨?_, rfl, ?_⟩
    · simp only [Except.map, List.filterMap_append]
      rfl
    · simp only [Except.map, hchanged]

/-- A source, an artifact with space at its end and a cell magic. -/
def magicLines : List Line := Text.splitLines "x=1\n!ls \n%%sh\n".toList

/-- Lines that would be faulty in any other place. -/
def frozenLines : List Line := Text.splitLines "%%% \r\n:tags: [\n---\n y \n".toList

/-- A cell with these lines and further ones. -/
def magicCell (rest : List Line) : Text :=
  "```\x7bcode-cell\x7d py\n".toList ++ joinLines (magicLines ++ rest) ++ "```\n".toList

def magicBlock (rest : List Line) : Block :=
  ⟨0, 4 + rest.length, ⟨[], ⟨'\x60', 3⟩, "\x7bcode-cell\x7d py".toList⟩, []⟩

/-- The attempt to format the cell, with a formatter that has one answer. -/
def magicAttempt (rest : List Line) : Attempt (List (Except FormatError Text)) FormattedBlock :=
  (magicBlock rest).format Header.rule Formatter.prepared {} (magicCell rest).splitLines
    [.ok "x = 1\n".toList]

theorem format_freezes_magicCell :
    (magicBlock [] ∈ (magicCell []).blocks ∧
        magicBlock frozenLines ∈ (magicCell frozenLines).blocks) ∧
      (magicAttempt frozenLines).events.filterMap Event.call? =
        (magicAttempt []).events.filterMap Event.call? ∧
      (magicAttempt frozenLines).state = (magicAttempt []).state ∧
      (magicAttempt frozenLines).result = (magicAttempt []).result.map fun new =>
        { new with body := new.body ++ joinLines frozenLines } := by
  have hblocks : magicBlock [] ∈ (magicCell []).blocks ∧
      magicBlock frozenLines ∈ (magicCell frozenLines).blocks := by
    decide +kernel
  have hbody : (magicBlock []).body (magicCell []).splitLines =
      magicLines.take 2 ++ [⟨"%%sh".toList, .lf⟩] := by
    decide +kernel
  have hbody' : (magicBlock frozenLines).body (magicCell frozenLines).splitLines =
      magicLines.take 2 ++ ⟨"%%sh".toList, .lf⟩ :: frozenLines := by
    decide +kernel
  have hmagic : (Body.classify Header.rule (magicBlock []).kind (magicBlock []).indent
      (magicLines.take 2 ++ [⟨"%%sh".toList, .lf⟩])).toOption.map
        (fun c => c.lines.getLast?.map BodyLine.kind) = some (some .cellMagic) := by
    decide +kernel
  cases hc : Body.classify Header.rule (magicBlock []).kind (magicBlock []).indent
      (magicLines.take 2 ++ [⟨"%%sh".toList, .lf⟩]) with
  | error fault =>
    rw [hc] at hmagic
    contradiction
  | ok c =>
    rw [hc] at hmagic
    exact ⟨hblocks, Block.format_freezes Header.rule Formatter.prepared {} (magicBlock [])
      (magicBlock frozenLines) _ _ _ frozenLines _ c _ rfl rfl rfl hbody hbody' hc
      (Option.some.inj hmagic)⟩

end FencedCode
