import FencedCode.Proofs.Artifacts
import FencedCode.Proofs.Written

/-! Artifacts after a run. They have lost the space at their ends, and the next run reads each of
them as what it was; a carriage return that the space had covered now belongs to the ending. -/
namespace FencedCode

variable {rule : HeaderRule} {kind : BlockKind} {indent : Text}

namespace BodyLine

/-- Whether the line is an artifact that ends otherwise after a run: a carriage return stood before
the space at its end, and before a line feed it is a part of the ending. -/
def uncovers (l : BodyLine) : Bool := l.kind.isArtifact && l.settled.ending != l.ending

/-- The artifact as the next run reads it. -/
def again (indent : Text) (l : BodyLine) : BodyLine :=
  ⟨l.kind, l.settled.content, Text.stripIndent indent l.settled.content, l.settled.ending⟩

variable {l : BodyLine}

/-- A run writes what is left of an artifact with its own ending, unless it lays bare a carriage
return. -/
theorem settled_cases (h : l.line.Whole) :
    l.settled = ⟨l.preserved, l.ending⟩ ∨
      (l.kind.isVerbatim = false ∧ l.ending = .lf ∧
        ∃ d, l.preserved = d ++ ['\r'] ∧ l.settled = ⟨d, .crlf⟩) := by
  have hn := unbroken_preserved h
  cases he : l.ending with
  | missing => exact absurd he h.ended
  | crlf =>
    have hw : (⟨l.preserved, .crlf⟩ : Line).Whole := ⟨by simp, hn, by simp⟩
    rw [settled, he]
    exact .inl hw.ofText_text
  | lf =>
    rw [settled, he, Ending.text, Line.ofText_append_lf]
    by_cases hr : l.preserved.getLast? = some '\r'
    · rw [if_pos hr]
      refine .inr ⟨?_, rfl, l.preserved.dropLast, ?_, rfl⟩
      · by_contra hv
        rw [preserved, if_pos (by simpa using hv)] at hr
        exact h.bare he hr
      · rw [List.dropLast_append_getLast?]
        exact hr
    · rw [if_neg hr]
      exact .inl rfl

theorem settled_of_isVerbatim (h : l.line.Whole) (hv : l.kind.isVerbatim) : l.settled = l.line := by
  rcases settled_cases h with hs | ⟨hn, -⟩
  · rw [hs, preserved, if_pos hv]
    rfl
  · rw [hv] at hn
    contradiction

theorem exists_soft (h : l.line.Whole) :
    ∃ tail, l.raw = l.settled.content ++ tail ∧ ∀ c ∈ tail, isSoft c := by
  have hp : ∃ u, l.raw = l.preserved ++ u ∧ ∀ c ∈ u, isPadding c := by
    rw [preserved]
    split
    · exact ⟨[], by simp, by simp⟩
    · exact l.raw.exists_trimPadding_append
  obtain ⟨u, hu, hs⟩ := hp
  have hu' : ∀ c ∈ u, isSoft c := fun c hc => by simp [isSoft, hs c hc]
  rcases settled_cases h with he | ⟨-, -, d, hd, he⟩
  · exact ⟨u, by rw [he]; exact hu, hu'⟩
  · refine ⟨'\r' :: u, ?_, List.forall_mem_cons.2 ⟨by decide, hu'⟩⟩
    rw [he, hu, hd, List.append_assoc]
    rfl

section Text

variable (hi : ∀ c ∈ indent, isPadding c) (h : l.line.Whole)
  (ht : l.text = Text.stripIndent indent l.raw)

include hi h ht

/-- The text of an artifact loses its soft end, or else there is nothing but white space. -/
theorem text_again_cases :
    (∃ tail, l.text = (l.again indent).text ++ tail ∧ ∀ c ∈ tail, isSoft c) ∨
      (l.text.isAllBlank ∧ (l.again indent).text.isAllBlank) := by
  obtain ⟨tail, hr, hs⟩ := exists_soft h
  by_cases hp : ∃ c ∈ l.settled.content, isPadding c = false
  · refine .inl ⟨tail, ?_, hs⟩
    rw [ht, hr, Text.stripIndent_append_right hi hp]
    rfl
  · have hb : l.settled.content.isAllBlank := by
      refine Text.isAllBlank_iff.2 fun c hc => isBlank_of_isPadding ?_
      by_contra hn
      exact hp ⟨c, hc, by simpa using hn⟩
    refine .inr ⟨?_, ?_⟩
    · rw [ht, Text.isAllBlank_stripIndent hi, hr, Text.isAllBlank_append, hb, Bool.true_and]
      exact Text.isAllBlank_iff.2 fun c hc => isBlank_of_isSoft (hs c hc)
    · rw [again, Text.isAllBlank_stripIndent hi, hb]

theorem isDelimiter_again :
    Header.isDelimiter (l.again indent).text = Header.isDelimiter l.text := by
  rcases text_again_cases hi h ht with ⟨tail, he, hs⟩ | ⟨hb, hb'⟩
  · rw [he, Header.isDelimiter, Header.isDelimiter,
      Text.trimEnd_append_of_blank _ fun c hc => isBlank_of_isSoft (hs c hc)]
  · rw [Header.isDelimiter, Header.isDelimiter, Text.trimEnd_of_blank (Text.isAllBlank_iff.1 hb),
      Text.trimEnd_of_blank (Text.isAllBlank_iff.1 hb')]

theorem exists_text_eq_append (hb : l.text.isAllBlank = false) :
    ∃ tail, l.text = (l.again indent).text ++ tail ∧ (∀ c ∈ tail, isSoft c) ∧
      (l.again indent).text.isAllBlank = false := by
  rcases text_again_cases hi h ht with ⟨tail, he, hs⟩ | ⟨hb', -⟩
  · refine ⟨tail, he, hs, ?_⟩
    have hs' : tail.isAllBlank := Text.isAllBlank_iff.2 fun c hc => isBlank_of_isSoft (hs c hc)
    rwa [he, Text.isAllBlank_append, hs', Bool.and_true] at hb
  · rw [hb] at hb'
    contradiction

end Text

end BodyLine

theorem classifyLine_of_isAllBlank (kind : BlockKind) {t : Text} (h : t.isAllBlank) :
    classifyLine kind t = .ok .source := by
  have ht : t.trimStart = [] := Text.trimStart_of_blank (Text.isAllBlank_iff.1 h)
  rw [classifyLine]
  simp only [ht]
  cases kind <;> rfl

namespace Phase

theorem eq_of_ofKind {b : Bool} {k k' : LineKind} {next : Phase} (h : ofKind b k = (k', next))
    (ha : k'.isArtifact) : k = k' := by
  cases k <;> cases b <;> cases h <;> first | rfl | contradiction

theorem eq_code_of_ofKind {b : Bool} {k : LineKind} {next : Phase}
    (h : ofKind b k = (.source, next)) : next = .code := by
  cases k <;> cases b <;> cases h <;> rfl

/-- A line of source stands outside of headers and frozen parts, and code goes on after it. -/
theorem eq_code_of_step {p next : Phase} {t : Text}
    (h : p.step rule kind t = .ok (.source, next)) :
    next = .code ∧
      (p = .options ∨ p = .code ∨ (p = .first ∧ Header.isDelimiter t = false)) := by
  obtain ⟨hd, hs⟩ | ⟨-, hs⟩ | ⟨-, ⟨n, hs⟩ | ⟨e, hs⟩⟩ := p.step_cases rule kind t
  · rw [hs] at h
    split at h
    · exact ⟨eq_code_of_ofKind (Except.ok.inj h), hd⟩
    · contradiction
  all_goals simp [hs] at h

theorem step_of_source {p : Phase} {t : Text}
    (hp : p = .options ∨ p = .code ∨ (p = .first ∧ Header.isDelimiter t = false))
    (hc : classifyLine kind t = .ok .source) : p.step rule kind t = .ok (.source, .code) := by
  rw [step_directive hp, hc]
  rfl

/-- An artifact outside of headers is read as before after a run. -/
theorem step_again (hi : ∀ c ∈ indent, isPadding c) {l : BodyLine} (hw : l.line.Whole)
    (ht : l.text = Text.stripIndent indent l.raw) (ha : l.kind.isArtifact) {p next : Phase}
    (hp : p.inHeader = false) (h : p.step rule kind l.text = .ok (l.kind, next)) :
    p.step rule kind (l.again indent).text = .ok (l.kind, next) := by
  by_cases hv : l.kind.isVerbatim
  · -- Verbatim artifacts are not changed at all.
    have hs : (l.again indent).text = l.text := by
      rw [BodyLine.again, BodyLine.settled_of_isVerbatim hw hv, ht]
      rfl
    rw [hs, h]
  have hd := BodyLine.isDelimiter_again hi hw ht
  by_cases hf : p = .first ∧ Header.isDelimiter l.text
  · obtain ⟨rfl, hf⟩ := hf
    rw [step, if_pos hf] at h
    rw [step, if_pos (hd.trans hf)]
    exact h
  have hdir : p = .options ∨ p = .code ∨ (p = .first ∧ Header.isDelimiter l.text = false) := by
    cases p with
    | options => exact .inl rfl
    | code => exact .inr (.inl rfl)
    | first => exact .inr (.inr ⟨rfl, by simpa using hf⟩)
    | frozen =>
      obtain ⟨hk, -⟩ := Prod.mk.inj (Except.ok.inj h)
      rw [← hk] at hv
      exact absurd rfl hv
    | header xs => contradiction
  rw [step_directive hdir] at h
  rw [step_directive (hd ▸ hdir)]
  cases hc : classifyLine kind l.text with
  | error e =>
    rw [hc] at h
    contradiction
  | ok k =>
    rw [hc] at h
    obtain rfl := eq_of_ofKind (Except.ok.inj h) ha
    have hb : l.text.isAllBlank = false := by
      by_contra hn
      rw [classifyLine_of_isAllBlank kind (by simpa using hn)] at hc
      rw [← Except.ok.inj hc] at ha
      contradiction
    obtain ⟨tail, he, hs, hb'⟩ := BodyLine.exists_text_eq_append hi hw ht hb
    rw [he] at hc
    rw [classifyLine_of_append hs hb' ha (by simpa using hv) hc]
    exact h

end Phase

/-- A tag line has the same tags after a run. -/
theorem lineTags_again (hi : ∀ c ∈ indent, isPadding c) {l : BodyLine} (hw : l.line.Whole)
    (ht : l.text = Text.stripIndent indent l.raw) {tags : Option (List Text)}
    (h : lineTags l.kind l.text = .ok tags) :
    lineTags l.kind (l.again indent).text = .ok tags := by
  cases hk : l.kind with
  | tags =>
    rw [hk, lineTags] at h
    rw [lineTags]
    cases hp : Tags.parse l.text with
    | error e =>
      rw [hp] at h
      contradiction
    | ok ts =>
      have hb : l.text.isAllBlank = false := by
        obtain ⟨rest, ss, more, hr, -⟩ := Tags.parse_eq_ok_iff.1 hp
        by_contra hn
        rw [Text.trimStart_of_blank (Text.isAllBlank_iff.1 (by simpa using hn))] at hr
        contradiction
      obtain ⟨tail, he, hs, hb'⟩ := BodyLine.exists_text_eq_append hi hw ht hb
      rw [hp] at h
      rw [he] at hp
      rw [Tags.parse_of_append hs hb' hp]
      exact h
  | _ =>
    rw [hk] at h
    exact h

/-- A line of a header, or one of the delimiters around it. -/
structure BodyLine.InHeader (indent : Text) (delimiter : Bool) (l : BodyLine) : Prop where
  option : l.kind = .cellOption
  text : l.text = Text.stripIndent indent l.raw
  delimits : Header.isDelimiter l.text = delimiter

theorem BodyLine.InHeader.again (hi : ∀ c ∈ indent, isPadding c) {l : BodyLine} {b : Bool}
    (h : l.InHeader indent b) (hw : l.line.Whole) : (l.again indent).InHeader indent b :=
  ⟨h.option, rfl, (isDelimiter_again hi hw h.text).trans h.delimits⟩

theorem BodyLine.InHeader.untagged {l : BodyLine} {b : Bool} (h : l.InHeader indent b) :
    lineTags l.kind l.text = .ok none := by
  rw [h.option]
  rfl

/-- A header is read up to the first delimiter, and there what is in it is checked. -/
theorem reads_header_iff {xs : List Text} {ls : List BodyLine} {last : Phase} :
    (Reads rule kind indent (.header xs) ls last ∧ last.inHeader = false) ↔
      ∃ hs e rest, ls = hs ++ e :: rest ∧ (∀ l ∈ hs, l.InHeader indent false) ∧
        e.InHeader indent true ∧ Header.check rule (xs ++ hs.map BodyLine.text) = .ok () ∧
        Reads rule kind indent .options rest last ∧ last.inHeader = false := by
  induction ls generalizing xs with
  | nil =>
    constructor
    · rintro ⟨h, hl⟩
      cases h
      contradiction
    · rintro ⟨hs, e, rest, he, -⟩
      simp at he
  | cons l ls ih =>
    constructor
    · rintro ⟨h, hl⟩
      cases h with
      | @cons _ next _ _ _ tags text step tagged rest =>
        rw [Phase.step] at step
        by_cases hd : Header.isDelimiter l.text
        · rw [if_pos hd] at step
          cases hc : Header.check rule xs with
          | error e =>
            rw [hc] at step
            contradiction
          | ok u =>
            rw [hc] at step
            obtain ⟨hk, rfl⟩ := Prod.mk.inj (Except.ok.inj step)
            exact ⟨[], l, ls, rfl, by simp, ⟨hk.symm, text, hd⟩, by simpa using hc, rest, hl⟩
        · rw [if_neg hd] at step
          obtain ⟨hk, rfl⟩ := Prod.mk.inj (Except.ok.inj step)
          obtain ⟨hs, e, rest', rfl, hh, he, hc, hr, -⟩ := ih.1 ⟨rest, hl⟩
          refine ⟨l :: hs, e, rest', rfl, ?_, he, ?_, hr, hl⟩
          · exact List.forall_mem_cons.2 ⟨⟨hk.symm, text, by simpa using hd⟩, hh⟩
          · rwa [List.map_cons, List.append_cons]
    · rintro ⟨hs, e, rest, heq, hh, he, hc, hr, hl⟩
      refine ⟨?_, hl⟩
      cases hs with
      | nil =>
        obtain ⟨rfl, rfl⟩ := List.cons.inj heq
        have hc : Header.check rule xs = .ok () := by simpa using hc
        refine .cons he.text ?_ he.untagged hr
        rw [Phase.step, if_pos he.delimits, hc, he.option]
      | cons h hs =>
        obtain ⟨rfl, rfl⟩ := List.cons.inj heq
        obtain ⟨hl', hh⟩ := List.forall_mem_cons.1 hh
        rw [List.map_cons, List.append_cons] at hc
        refine .cons hl'.text ?_ hl'.untagged
          (ih.2 ⟨hs, e, rest, rfl, hh, he, hc, hr, hl⟩).1
        rw [Phase.step, if_neg (by simp [hl'.delimits]), hl'.option]

end FencedCode
