import FencedCode.Proofs.Draft

/-! Documents that are written in another dress: with more indentation, or with other line endings.
Every step of a run treats a dressed document as it treats the plain one, so that the formatter sees
no difference and the lines that are put together are those of the plain document, dressed. -/
namespace FencedCode

variable {σ : Type}

/-- A dress for lines: spaces and tabs before each content that is not empty, and a change of
endings that makes no bare line feed and keeps lines apart that were. -/
structure Dress where
  pad : Text
  ending : Ending → Ending
  padding : ∀ c ∈ pad, isPadding c
  ended : ∀ e, ending e = .missing ↔ e = .missing
  bare : ∀ e, ending e = .lf → e = .lf

namespace Dress

variable (d : Dress)

def content (t : Text) : Text := if t = [] then [] else d.pad ++ t

def line (l : Line) : Line := ⟨d.content l.content, d.ending l.ending⟩

def text (t : Text) : Text := joinLines (t.splitLines.map d.line)

def opener (o : Opener) : Opener := { o with indent := d.pad ++ o.indent }

def block (b : Block) : Block := { b with opener := d.opener b.opener }

/-- A line that was read keeps its kind, and what was read of it. -/
def bodyLine (l : BodyLine) : BodyLine :=
  { l with raw := d.content l.raw, ending := d.ending l.ending }

def body (c : Body) : Body := ⟨c.lines.map d.bodyLine, c.tags⟩

def segment : Segment → Segment
  | .artifact l => .artifact (d.bodyLine l)
  | .source first run => .source first (run.map d.bodyLine)

section Content

@[simp] theorem content_nil : d.content [] = [] := rfl

theorem content_of_ne_nil {t : Text} (h : t ≠ []) : d.content t = d.pad ++ t := if_neg h

@[simp] theorem content_eq_nil_iff {t : Text} : d.content t = [] ↔ t = [] := by
  by_cases h : t = []
  · simp [h]
  · simp [content_of_ne_nil d h, h]

theorem content_injective : Function.Injective d.content := by
  intro t u h
  by_cases ht : t = []
  · rw [ht, content_nil, eq_comm, content_eq_nil_iff] at h
    rw [ht, h]
  · have hu : u ≠ [] := by
      rintro rfl
      exact ht ((content_eq_nil_iff d).1 h)
    rw [content_of_ne_nil d ht, content_of_ne_nil d hu] at h
    exact List.append_cancel_left h

theorem getLast?_content (t : Text) : (d.content t).getLast? = t.getLast? := by
  by_cases h : t = []
  · rw [h, content_nil]
  · rw [content_of_ne_nil d h, List.getLast?_append_of_ne_nil _ h]

theorem not_mem_content {t : Text} (h : '\n' ∉ t) : '\n' ∉ d.content t := by
  by_cases ht : t = []
  · simp [ht]
  · rw [content_of_ne_nil d ht]
    exact Text.unbroken_append d.padding h

theorem trimPadding_content (t : Text) : (d.content t).trimPadding = d.content t.trimPadding := by
  by_cases h : t = []
  · rw [h]
    rfl
  · rw [content_of_ne_nil d h]
    obtain ⟨u, hu, hp⟩ := t.exists_trimPadding_append
    rcases List.eq_nil_or_concat t.trimPadding with hn | ⟨r, c, hc⟩
    · rw [hn, content_nil, Text.trimPadding_of_padding]
      rw [hn, List.nil_append] at hu
      rw [List.forall_mem_append, hu]
      exact ⟨d.padding, hp⟩
    · rw [List.concat_eq_append] at hc
      have hf := Text.not_isPadding_of_trimPadding hc
      conv_lhs => rw [hu, ← List.append_assoc, Text.trimPadding_append_of_padding _ hp, hc,
        ← List.append_assoc, Text.trimPadding_append_singleton _ hf, List.append_assoc, ← hc]
      rw [content_of_ne_nil d (by simp [hc])]

/-- Taking the indentation off a line takes off the dress with it. -/
theorem stripIndent_content (indent t : Text) :
    Text.stripIndent (d.pad ++ indent) (d.content t) = Text.stripIndent indent t := by
  by_cases h : t = []
  · rw [h, content_nil, Text.stripIndent_nil, Text.stripIndent_nil]
  · rw [content_of_ne_nil d h, Text.stripIndent, Text.isPrefixOf?_append_left, Text.stripIndent,
      List.length_append, Text.dropPadding_append_of_padding d.padding]

end Content

section Fences

theorem ofContent?_content (t : Text) :
    Opener.ofContent? (d.content t) = (Opener.ofContent? t).map d.opener := by
  by_cases h : t = []
  · rw [h]
    rfl
  · rw [content_of_ne_nil d h, Opener.ofContent?, List.dropWhile_append_of_pos d.padding,
      List.takeWhile_append_of_pos d.padding, Opener.ofContent?]
    cases t.dropWhile isPadding with
    | nil => rfl
    | cons m r =>
      simp only
      split <;> rfl

theorem wellFormed_opener {o : Opener} (h : o.WellFormed) : (d.opener o).WellFormed :=
  ⟨List.forall_mem_append.2 ⟨d.padding, h.indent⟩, h.marker, h.length⟩

theorem closes?_content {o : Opener} (ho : o.WellFormed) (t : Text) :
    (d.opener o).closes? (d.content t) = o.closes? t := by
  by_cases h : t = []
  · rw [h, content_nil, ho.closes?_of_isAllBlank rfl,
      (d.wellFormed_opener ho).closes?_of_isAllBlank rfl]
  · rw [content_of_ne_nil d h, Opener.closes?, Opener.closes?]
    change ((d.pad ++ o.indent).isPrefixOf? (d.pad ++ t)).bind o.fence.closes? = _
    rw [Text.isPrefixOf?_append_left]

def fenced (f : Fenced) : Fenced where
  opener := d.opener f.opener
  trailing := f.trailing
  fence := d.line f.fence
  body := f.body.map d.line
  close := d.line f.close
  opens := by rw [line, ofContent?_content, f.opens, Option.map_some]
  closes := by rw [line, closes?_content d f.wellFormed, f.closes]

def piece : Piece → Piece
  | .line l => .line (d.line l)
  | .fenced f => .fenced (d.fenced f)

theorem lines_map_piece (ps : Layout) : Layout.lines (ps.map d.piece) = ps.lines.map d.line := by
  induction ps with
  | nil => rfl
  | cons p ps ih =>
    cases p with
    | line l => simp [piece, ih]
    | fenced f => simp [piece, fenced, ih]

theorem blocksFrom_map_piece (ps : Layout) (i : Nat) :
    Layout.blocksFrom i (ps.map d.piece) = (ps.blocksFrom i).map d.block := by
  induction ps generalizing i with
  | nil => rfl
  | cons p ps ih =>
    cases p with
    | line l => exact ih (i + 1)
    | fenced f =>
      simp only [List.map_cons, piece, Layout.blocksFrom, ih, fenced, List.length_map]
      rfl

theorem weave_map_piece (ps : Layout) (ws : List (List Line)) :
    Layout.weave (ps.map d.piece) (ws.map (List.map d.line)) = (ps.weave ws).map d.line := by
  induction ps generalizing ws with
  | nil => rfl
  | cons p ps ih =>
    cases p with
    | line l => rw [List.map_cons, piece, Layout.weave, Layout.weave, ih, List.map_cons]
    | fenced f =>
      cases ws with
      | nil =>
        have hi := ih []
        rw [List.map_nil] at hi
        simp [piece, fenced, Layout.weave, hi]
      | cons w ws => simp [piece, fenced, Layout.weave, ih]

theorem proper_map_piece {ps : Layout} (h : ps.Proper) : Layout.Proper (ps.map d.piece) := by
  induction ps with
  | nil => trivial
  | cons p ps ih =>
    cases p with
    | line l =>
      refine ⟨?_, ih h.2⟩
      rw [line, ofContent?_content, lines_map_piece]
      intro o' ho'
      obtain ⟨o, ho, rfl⟩ := Option.map_eq_some_iff.1 ho'
      rw [List.forall_mem_map]
      intro m hm
      rw [line, closes?_content d (Opener.wellFormed_of_ofContent? ho)]
      exact h.1 o ho m hm
    | fenced f =>
      refine ⟨?_, ih h.2⟩
      change ∀ m ∈ f.body.map d.line, _
      rw [List.forall_mem_map]
      intro m hm
      change (d.opener f.opener).closes? (d.content m.content) = none
      rw [closes?_content d f.wellFormed]
      exact h.1 m hm

end Fences

section Lines

theorem whole_line {l : Line} (h : l.Whole) : (d.line l).Whole where
  ended := fun he => h.ended ((d.ended l.ending).1 he)
  unbroken := d.not_mem_content h.unbroken
  bare := fun he => by
    rw [line, getLast?_content]
    exact h.bare (d.bare l.ending he)

theorem unended_line {l : Line} (h : l.Unended) : (d.line l).Unended where
  open_end := (d.ended l.ending).2 h.open_end
  unbroken := d.not_mem_content h.unbroken
  filled := fun hc => h.filled ((d.content_eq_nil_iff).1 hc)

theorem lined_map_line {ls : List Line} (h : Lined ls) : Lined (ls.map d.line) := by
  induction ls with
  | nil => trivial
  | cons l ls ih =>
    refine ⟨h.1.imp d.whole_line fun hu => ⟨d.unended_line hu.1, ?_⟩, ih h.2⟩
    rw [hu.2]
    rfl

@[simp] theorem splitLines_text (t : Text) : (d.text t).splitLines = t.splitLines.map d.line :=
  splitLines_joinLines (d.lined_map_line (lined_splitLines t))

theorem text_injective (h : Function.Injective d.ending) : Function.Injective d.text := by
  have hl : Function.Injective d.line := by
    intro l m he
    obtain ⟨hc, he⟩ := Line.mk.inj he
    exact congrArg₂ Line.mk (d.content_injective hc) (h he)
  intro t u he
  have hs := congrArg Text.splitLines he
  rw [splitLines_text, splitLines_text] at hs
  rw [← Text.joinLines_splitLines t, hl.list_map hs, Text.joinLines_splitLines]

theorem drafted_map_line {ls : List Line} (h : Drafted ls) : Drafted (ls.map d.line) := by
  induction ls with
  | nil => trivial
  | cons l ls ih =>
    obtain ⟨hu, hm, h⟩ := h
    refine ⟨d.not_mem_content hu, fun he => ?_, ih h⟩
    obtain ⟨hc, rfl⟩ := hm ((d.ended l.ending).1 he)
    exact ⟨mt d.content_eq_nil_iff.1 hc, rfl⟩

/-- Dressing lines before they are put together is dressing the text exactly if every line is read
back in its dress. -/
theorem joinLines_map_line_iff {ls : List Line} (h : Drafted ls) :
    joinLines (ls.map d.line) = d.text (joinLines ls) ↔
      ∀ l ∈ ls, Line.ofText (d.line l).text = d.line (Line.ofText l.text) := by
  have hs : (joinLines (ls.map d.line)).splitLines = (d.text (joinLines ls)).splitLines ↔
      joinLines (ls.map d.line) = d.text (joinLines ls) := by
    constructor
    · intro he
      rw [← Text.joinLines_splitLines (joinLines (ls.map d.line)), he, Text.joinLines_splitLines]
    · exact congrArg Text.splitLines
  rw [← hs, (d.drafted_map_line h).splitLines_joinLines, splitLines_text, h.splitLines_joinLines,
    List.map_map, List.map_map, List.map_inj_left]
  rfl

end Lines

section Bodies

theorem body_block (b : Block) (ls : List Line) :
    (d.block b).body (ls.map d.line) = (b.body ls).map d.line := by
  rw [Block.body, Block.body, List.map_take, List.map_drop]
  rfl

variable {rule : HeaderRule} {kind : BlockKind} {indent : Text}

theorem classifyFrom_map (phase : Phase) (ls : List Line) :
    Body.classifyFrom rule kind (d.pad ++ indent) phase (ls.map d.line) =
      (Body.classifyFrom rule kind indent phase ls).map d.body := by
  induction ls generalizing phase with
  | nil =>
    rw [List.map_nil, Body.classifyFrom_nil, Body.classifyFrom_nil]
    split <;> rfl
  | cons l ls ih =>
    have hl : Text.stripIndent (d.pad ++ indent) (d.line l).content =
        Text.stripIndent indent l.content := d.stripIndent_content indent l.content
    rw [List.map_cons, Body.classifyFrom, Body.classifyFrom]
    simp only [hl, ih]
    cases phase.step rule kind (Text.stripIndent indent l.content) with
    | error fault => rfl
    | ok x =>
      simp only [bind, Except.bind]
      cases lineTags x.1 (Text.stripIndent indent l.content) with
      | error fault => rfl
      | ok tags => cases Body.classifyFrom rule kind indent x.2 ls <;> rfl

theorem segmentsFrom_map (i : Nat) (ls : List BodyLine) :
    segmentsFrom i (ls.map d.bodyLine) = (segmentsFrom i ls).map d.segment := by
  induction ls using bodyInduction generalizing i with
  | nil => rfl
  | artifact l ls hl ih =>
    rw [List.map_cons, segmentsFrom_artifact (l := d.bodyLine l) hl, segmentsFrom_artifact hl, ih]
    rfl
  | run run tail hr hs ht ih =>
    have hr' : run.map d.bodyLine ≠ [] := by simpa using hr
    have hs' : ∀ l ∈ run.map d.bodyLine, l.kind.isArtifact = false := List.forall_mem_map.2 hs
    have ht' : ∀ l ∈ (tail.map d.bodyLine).head?, l.kind.isArtifact := by
      rw [List.head?_map]
      rintro _ hm
      obtain ⟨l, hl, rfl⟩ := Option.map_eq_some_iff.1 hm
      exact ht l hl
    rw [List.map_append, segmentsFrom_run hr' hs' ht', segmentsFrom_run hr hs ht, ih,
      List.length_map]
    rfl

theorem draft_bodyLine (l : BodyLine) : (d.bodyLine l).draft = d.line l.draft := by
  rw [BodyLine.draft, BodyLine.draft, line, BodyLine.preserved, BodyLine.preserved]
  change Line.mk (if l.kind.isVerbatim then d.content l.raw else (d.content l.raw).trimPadding)
    (d.ending l.ending) = _
  rw [trimPadding_content]
  split <;> rfl

theorem map_line_map_bodyLine (ls : List BodyLine) :
    (ls.map d.bodyLine).map BodyLine.line = (ls.map BodyLine.line).map d.line := by
  rw [List.map_map, List.map_map]
  rfl

/-- The pieces of a run are dressed as the run is. -/
theorem ofLines_map (run : List BodyLine) :
    Run.ofLines (run.map d.bodyLine) =
      ⟨(Run.ofLines run).leading.map d.bodyLine, (Run.ofLines run).code.map d.bodyLine,
        (Run.ofLines run).trailing.map d.bodyLine⟩ := by
  have hb : BodyLine.isBlank ∘ d.bodyLine = BodyLine.isBlank := rfl
  simp only [Run.ofLines, List.takeWhile_map, List.dropWhile_map, ← List.map_reverse, hb]

theorem source_ofLines_map (run : List BodyLine) :
    (Run.ofLines (run.map d.bodyLine)).source = (Run.ofLines run).source := by
  rw [ofLines_map, Run.source, Run.source, List.flatMap_map]
  rfl

theorem source?_segment (seg : Segment) : (d.segment seg).source? = seg.source? := by
  cases seg with
  | artifact l => rfl
  | source first run =>
    rw [segment, Segment.source?, Segment.source?, source_ofLines_map, ofLines_map,
      List.isEmpty_map]

theorem draftLine_append (indent : Text) (newline : Ending) (t : Text) :
    draftLine (d.pad ++ indent) (d.ending newline) t = d.line (draftLine indent newline t) := by
  rw [draftLine, draftLine, line]
  by_cases ht : t.isAllBlank
  · simp [ht]
  · have hn : indent ++ t ≠ [] := by
      rintro h
      rw [(List.append_eq_nil_iff.1 h).2] at ht
      exact ht rfl
    simp only [ht, Bool.false_eq_true, if_false, content_of_ne_nil d hn, List.append_assoc]

theorem draft_ofLines_map (run : List BodyLine) (indent : Text) (newline : Ending)
    (answer : Text) :
    (Run.ofLines (run.map d.bodyLine)).draft (d.pad ++ indent) (d.ending newline) answer =
      ((Run.ofLines run).draft indent newline answer).map d.line := by
  have ha : draftLine (d.pad ++ indent) (d.ending newline) = d.line ∘ draftLine indent newline :=
    funext (d.draftLine_append indent newline)
  rw [ofLines_map, Run.draft, Run.draft, List.map_append, List.map_append,
    map_line_map_bodyLine, map_line_map_bodyLine, ha, List.map_map (l := answer.lines)]

theorem draft_block (b : Block) (newline : Ending) (segs : List Segment)
    (answers : List (Except FormatError Text)) :
    (d.block b).draft (d.ending newline) (segs.map d.segment) answers =
      (b.draft newline segs answers).map (List.map d.line) := by
  induction segs generalizing answers with
  | nil => rfl
  | cons seg segs ih =>
    cases seg with
    | artifact l =>
      rw [List.map_cons, segment, Block.draft, Block.draft, ih, draft_bodyLine]
      cases b.draft newline segs answers <;> rfl
    | source first run =>
      have hl := congrArg Run.code (d.ofLines_map run)
      rw [List.map_cons, segment]
      by_cases hc : (Run.ofLines run).code = []
      · rw [Block.draft_of_no_code hc, Block.draft_of_no_code (by simp [hl, hc]), ih,
          map_line_map_bodyLine]
        cases b.draft newline segs answers <;> simp [Except.map]
      · rw [Block.draft_of_code hc, Block.draft_of_code (by simp [hl, hc])]
        cases answers with
        | nil =>
          simp only [ih, map_line_map_bodyLine]
          cases b.draft newline segs [] <;> simp [Except.map]
        | cons x answers =>
          cases x with
          | error e =>
            have hn := congrArg (fun r => r.leading.length) (d.ofLines_map run)
            simp only [List.length_map] at hn
            simp only [hn]
            rfl
          | ok answer =>
            have hd := d.draft_ofLines_map run b.indent newline answer
            simp only [ih]
            change Except.map ((Run.ofLines (run.map d.bodyLine)).draft (d.pad ++ b.indent)
              (d.ending newline) answer ++ ·) _ = _
            rw [hd]
            cases b.draft newline segs answers <;> simp [Except.map]

end Bodies

section Blocks

variable (rule : HeaderRule) (b : Block) (ls : List Line)

theorem classify_block :
    Body.classify rule (d.block b).kind (d.block b).indent ((d.block b).body (ls.map d.line)) =
      (Body.classify rule b.kind b.indent (b.body ls)).map d.body := by
  rw [body_block]
  exact d.classifyFrom_map (.initial b.kind) (b.body ls)

theorem sources_block : (d.block b).sources rule (ls.map d.line) = b.sources rule ls := by
  rw [Block.sources, Block.sources, classify_block]
  cases Body.classify rule b.kind b.indent (b.body ls) with
  | error fault => rfl
  | ok c =>
    change (segmentsFrom 0 (c.lines.map d.bodyLine)).filterMap Segment.source? = _
    rw [segmentsFrom_map, List.filterMap_map]
    congr 1
    funext seg
    exact d.source?_segment seg

theorem offered_block (languages : List Text) :
    (d.block b).offered rule languages (ls.map d.line) = b.offered rule languages ls := by
  rw [Block.offered, Block.offered, sources_block]
  rfl

/-- New lines are dressed as the first line of the body is, which has an ending. -/
theorem newlineOf_map {l : BodyLine} (h : l.ending ≠ .missing) (ls : List BodyLine) :
    newlineOf ((l :: ls).map d.bodyLine) = d.ending (newlineOf (l :: ls)) := by
  have hd : (d.bodyLine l).ending ≠ .missing := mt (d.ended l.ending).1 h
  rw [List.map_cons, newlineOf_cons_of_ended hd, newlineOf_cons_of_ended h]
  rfl

variable {rule b ls}

theorem draftBody_block (hb : ∀ l ∈ b.body ls, l.ending ≠ .missing)
    (answers : List (Except FormatError Text)) :
    (d.block b).draftBody rule (ls.map d.line) answers =
      (b.draftBody rule ls answers).map (List.map d.line) := by
  rw [Block.draftBody, Block.draftBody, classify_block]
  cases hc : Body.classify rule b.kind b.indent (b.body ls) with
  | error fault => rfl
  | ok c =>
    simp only [Except.map, body, segments, segmentsFrom_map]
    cases hl : c.lines with
    | nil => rfl
    | cons l ms =>
      have hm := Body.line_mem_of_classify hc (hl ▸ List.mem_cons_self)
      rw [newlineOf_map d (hb _ hm), draft_block]
      rfl

variable {f : Formatter σ} {options : RunOptions} {s : σ}

theorem newLines_block (hb : ∀ l ∈ b.body ls, l.ending ≠ .missing) :
    (d.block b).newLines rule f options (ls.map d.line) s =
      (b.newLines rule f options ls s).map d.line := by
  rw [Block.newLines, Block.newLines, draftBody_block d hb, Block.answers, sources_block,
    body_block]
  change (if b.isWrittenIn options.languages then _ else _) = _
  split
  · rw [Block.answers]
    cases b.draftBody rule ls _ <;> rfl
  · rfl

theorem error?_block (hb : ∀ l ∈ b.body ls, l.ending ≠ .missing) :
    (d.block b).error? rule f options (ls.map d.line) s = b.error? rule f options ls s := by
  rw [Block.error?_eq, Block.error?_eq, draftBody_block d hb, Block.answers, sources_block]
  change (if b.isWrittenIn options.languages then _ else _) = _
  split
  · rw [Block.answers]
    cases b.draftBody rule ls _ <;> rfl
  · rfl

theorem stateAfter_block :
    (d.block b).stateAfter rule f options (ls.map d.line) s = b.stateAfter rule f options ls s := by
  rw [Block.stateAfter_eq, Block.stateAfter_eq, offered_block]

end Blocks

section Documents

variable (rule : HeaderRule) (f : Formatter σ) (options : RunOptions)

theorem visits_map (ls : List Line) (bs : List Block) (s : σ) :
    visits rule f options (ls.map d.line) (bs.map d.block) s =
      (visits rule f options ls bs s).map fun v => (d.block v.1, v.2) := by
  induction bs generalizing s with
  | nil => rfl
  | cons b bs ih => rw [List.map_cons, visits, visits, stateAfter_block, ih, List.map_cons]

theorem blocks_text (t : Text) : (d.text t).blocks = t.blocks.map d.block := by
  obtain ⟨ps, hl, hp⟩ := Layout.exists_proper t.splitLines
  have hd : Layout.lines (ps.map d.piece) = (d.text t).splitLines := by
    rw [lines_map_piece, hl, splitLines_text]
  rw [← (d.proper_map_piece hp).blocks_eq hd, ← hp.blocks_eq hl]
  exact d.blocksFrom_map_piece ps 0

variable (t : Text) (s : σ)

theorem visits_text :
    visits rule f options (d.text t).splitLines (d.text t).blocks s =
      (visits rule f options t.splitLines t.blocks s).map fun v => (d.block v.1, v.2) := by
  rw [splitLines_text, blocks_text, visits_map]

/-- What a run makes of a dressed document is what it makes of the plain one, dressed. -/
theorem rewritten_text (ps : Layout) :
    Layout.rewritten rule f options (d.text t) s (ps.map d.piece) =
      (ps.rewritten rule f options t s).map d.line := by
  rw [Layout.rewritten, Layout.rewritten, visits_text, List.map_map, ← weave_map_piece,
    List.map_map]
  congr 1
  refine List.map_congr_left fun v hv => ?_
  have hw := (Text.wellFormed_of_mem_blocks v.1 (mem_blocks_of_mem_visits hv)).2
  simp only [Function.comp_apply, splitLines_text]
  exact d.newLines_block fun l hl => (hw l hl).ended

theorem errors_text :
    ((visits rule f options (d.text t).splitLines (d.text t).blocks s).filterMap fun v =>
        v.1.error? rule f options (d.text t).splitLines v.2) =
      (visits rule f options t.splitLines t.blocks s).filterMap fun v =>
        v.1.error? rule f options t.splitLines v.2 := by
  rw [visits_text, List.filterMap_map]
  refine List.filterMap_congr fun v hv => ?_
  have hw := (Text.wellFormed_of_mem_blocks v.1 (mem_blocks_of_mem_visits hv)).2
  simp only [Function.comp_apply, splitLines_text]
  exact d.error?_block fun l hl => (hw l hl).ended

theorem offered_text :
    ((d.text t).blocks.map fun b => b.offered rule options.languages (d.text t).splitLines) =
      t.blocks.map fun b => b.offered rule options.languages t.splitLines := by
  rw [blocks_text, splitLines_text, List.map_map]
  refine List.map_congr_left fun b _ => ?_
  exact d.offered_block rule b t.splitLines options.languages

end Documents

end Dress

/-- Two runs that tell the same story: they give the same sources to the formatter, meet as many
blocks and report the same errors, each at the same place. -/
structure RunResult.Parallel (r r' : RunResult) : Prop where
  calls : r'.calls = r.calls
  errors : r'.errors = r.errors
  seen : r'.blocksSeen = r.blocksSeen
  formatted : r'.blocksFormatted = r.blocksFormatted

/-- A run on a dressed document runs in parallel to that on the plain one, and puts the same lines
together, dressed. -/
theorem Dress.formatWith_text (d : Dress) (rule : HeaderRule) (f : Formatter σ)
    {options : RunOptions} (text : Text) (s : σ) (hv : options.format.validate = .ok ()) :
    ∃ r r' s', formatWith rule f options text s = (.ok r, s') ∧
      formatWith rule f options (d.text text) s = (.ok r', s') ∧ r.Parallel r' ∧
      r.modified = (r.text != text) ∧ r'.modified = (r'.text != d.text text) ∧
      ∀ ps : Layout, ps.lines = text.splitLines → ps.Proper →
        r.text = joinLines (ps.rewritten rule f options text s) ∧
          r'.text = joinLines ((ps.rewritten rule f options text s).map d.line) := by
  obtain ⟨r, s₁, hr, hm, ht, he, hs, hn⟩ := formatWith_drafted rule f text s hv
  obtain ⟨r', s₂, hr', hm', ht', he', hs', hn'⟩ := formatWith_drafted rule f (d.text text) s hv
  have hc := (formatWith_feed rule f hr').trans
    ((congrArg (f.feedAll options.format · s) (d.offered_text rule options text)).trans
      (formatWith_feed rule f hr).symm)
  obtain ⟨hcalls, rfl⟩ := Prod.mk.inj hc
  refine ⟨r, r', s₂, hr, hr', ⟨hcalls, ?_, ?_, ?_⟩, hm, hm', fun ps hl hp => ⟨ht ps hl hp, ?_⟩⟩
  · rw [he', he, d.errors_text]
  · rw [hs', hs, d.blocks_text, List.length_map]
  · rw [hn', hn, d.blocks_text, List.filter_map, List.length_map]
    rfl
  · have hd : Layout.lines (ps.map d.piece) = (d.text text).splitLines := by
      rw [d.lines_map_piece, hl, d.splitLines_text]
    rw [ht' _ hd (d.proper_map_piece hp), d.rewritten_text]

end FencedCode
