import FencedCode.Proofs.Freezing
import FencedCode.Proofs.Positions
import FencedCode.Proofs.Sources
import FencedCode.Proofs.TagGrammar

/-! The shape of a body. Its lines come in three stretches, its tags are those of all its tag lines,
and if it cannot be read, then the first line with a fault is to blame. -/
namespace FencedCode

/-- The kinds of lines from a cell magic on, which freezes all that follow it. -/
def FrozenEnd (ks : List LineKind) : Prop :=
  ks = [] ∨ ∃ n, ks = .cellMagic :: List.replicate n .frozen

/-- The kinds of lines after the options: code and what may stand in it, up to a cell magic. -/
def CodeEnd (ks : List LineKind) : Prop :=
  ∃ code rest, ks = code ++ rest ∧
    (∀ k ∈ code, k = .source ∨ k = .command ∨ k = .lineMagic ∨ k = .tags) ∧ FrozenEnd rest

/-- The kinds of lines from the options on, which may have tags in between. -/
def OptionEnd (ks : List LineKind) : Prop :=
  ∃ options rest, ks = options ++ rest ∧
    (∀ k ∈ options, k = .cellOption ∨ k = .tags) ∧ CodeEnd rest

/-- The kinds of lines in a body. A plain block has neither options nor tags. -/
structure KindShape (kind : BlockKind) (ks : List LineKind) : Prop where
  stretches : OptionEnd ks
  plain : kind = .plain → ∀ k ∈ ks, k ≠ .cellOption ∧ k ≠ .tags

/-- What is wrong with the header of a cell: it has no end, or its lines are refused. -/
inductive HeaderFault (rule : HeaderRule) : BlockKind → List Text → HeaderError → Prop
  | unterminated {d : Text} {hs : List Text} (opens : Header.isDelimiter d)
      (lines : ∀ t ∈ hs, Header.isDelimiter t = false) :
      HeaderFault rule .cell (d :: hs) .unterminated
  | rejected {d e : Text} {hs rest : List Text} {err : HeaderError} (opens : Header.isDelimiter d)
      (lines : ∀ t ∈ hs, Header.isDelimiter t = false) (closes : Header.isDelimiter e)
      (check : Header.check rule hs = .error err) :
      HeaderFault rule .cell (d :: (hs ++ e :: rest)) err

/-- The texts of lines without the indentation of their block. -/
def bareTexts (indent : Text) (ls : List Line) : List Text :=
  ls.map fun l => Text.stripIndent indent l.content

/-- What is read of the lines of a body: all of them in their order, and the tags of its tag lines,
each where it is first seen. -/
structure Body.Shaped (kind : BlockKind) (indent : Text) (ls : List Line) (c : Body) : Prop where
  verbatim : c.lines.map BodyLine.verbatim = ls.map Line.text
  texts : c.lines.map BodyLine.text = bareTexts indent ls
  kinds : KindShape kind (c.lines.map BodyLine.kind)
  untagged : c.tags = none ↔ ∀ l ∈ c.lines, l.kind ≠ .tags
  tagged : ∀ tags ∈ c.tags, ∃ tss,
    List.Forall₂ (fun l ts => Tags.parse l.text = .ok ts) (c.lines.filter (·.kind = .tags)) tss ∧
      Tags.FirstSeen tss.flatten tags

/-- The fault of a malformed line. -/
inductive Offends (kind : BlockKind) (t : Text) : BlockFault → Prop
  | magic {e : MagicError} (h : classifyLine kind t = .error e) : Offends kind t (.magic e)
  | tags {e : TagError} (cell : kind = .cell) (line : Tags.isTagLine t)
      (h : Tags.parse t = .error e) : Offends kind t (.tags e)

/-- The fault of the first malformed line, if no cell magic comes before it. -/
def FirstOffence (kind : BlockKind) (ts : List Text) (fault : BlockFault) : Prop :=
  ∃ us u vs, ts = us ++ u :: vs ∧
    (∀ x ∈ us, classifyLine kind x ≠ .ok .cellMagic ∧ ¬ IsMalformed kind x) ∧ Offends kind u fault

section Lines

variable {kind : BlockKind} {t : Text} {k : LineKind}

theorem classifyLine_cases (h : classifyLine kind t = .ok k) :
    k ≠ .frozen ∧ (kind = .plain → k ≠ .tags ∧ k ≠ .cellOption) := by
  rw [classifyLine] at h
  split at h
  · obtain rfl := Except.ok.inj h
    simp
  · rcases classifyMagic_cases h with rfl | rfl <;> simp
  · split_ifs at h with ht ho <;> obtain rfl := Except.ok.inj h <;> simp_all

theorem classifyLine_eq_tags_iff :
    classifyLine kind t = .ok .tags ↔ kind = .cell ∧ Tags.isTagLine t := by
  constructor
  · intro h
    rw [classifyLine] at h
    split at h
    · contradiction
    · rcases classifyMagic_cases h with h | h <;> contradiction
    · split_ifs at h with ht
      · simpa [isTagLine_trimStart] using ht
      · contradiction
      · contradiction
  · rintro ⟨rfl, h⟩
    exact classifyLine_of_isTagLine h

theorem isMalformed_iff : IsMalformed kind t ↔ ∃ fault, Offends kind t fault := by
  constructor
  · rintro (⟨e, he⟩ | ⟨hk, ht, e, he⟩)
    · exact ⟨_, .magic he⟩
    · exact ⟨_, .tags hk ht he⟩
  · rintro ⟨fault, hf⟩
    cases hf with
    | magic h => exact .inl ⟨_, h⟩
    | tags cell line h => exact .inr ⟨cell, line, _, h⟩

/-- Where a line can be classified, its fault is that of its tags. -/
theorem offends_iff_of_ok (h : classifyLine kind t = .ok k) {fault : BlockFault} :
    Offends kind t fault ↔ lineTags k t = .error fault := by
  constructor
  · intro hf
    cases hf with
    | magic he =>
      rw [h] at he
      contradiction
    | tags cell line he =>
      rw [classifyLine_eq_tags_iff.2 ⟨cell, line⟩] at h
      rw [← Except.ok.inj h, lineTags, he]
  · intro hf
    rw [lineTags.eq_def] at hf
    split at hf
    · obtain ⟨hk, ht⟩ := classifyLine_eq_tags_iff.1 h
      split at hf
      · contradiction
      · next e he =>
        rw [← Except.error.inj hf]
        exact .tags hk ht he
    · contradiction

theorem offends_iff_of_error {e : MagicError} (h : classifyLine kind t = .error e)
    {fault : BlockFault} : Offends kind t fault ↔ fault = .magic e := by
  constructor
  · intro hf
    cases hf with
    | magic he =>
      rw [h] at he
      rw [Except.error.inj he]
    | tags cell line he =>
      rw [classifyLine_eq_tags_iff.2 ⟨cell, line⟩] at h
      contradiction
  · rintro rfl
    exact .magic h

theorem firstOffence_cons_iff {ts : List Text} {fault : BlockFault} :
    FirstOffence kind (t :: ts) fault ↔ Offends kind t fault ∨
      (classifyLine kind t ≠ .ok .cellMagic ∧ ¬ IsMalformed kind t) ∧
        FirstOffence kind ts fault := by
  constructor
  · rintro ⟨us, u, vs, he, hus, hu⟩
    cases us with
    | nil =>
      obtain ⟨rfl, rfl⟩ := List.cons.inj he
      exact .inl hu
    | cons x us =>
      obtain ⟨rfl, rfl⟩ := List.cons.inj he
      obtain ⟨hx, hus⟩ := List.forall_mem_cons.1 hus
      exact .inr ⟨hx, us, u, vs, rfl, hus, hu⟩
  · rintro (h | ⟨ht, us, u, vs, rfl, hus, hu⟩)
    · exact ⟨[], t, ts, rfl, by simp, h⟩
    · exact ⟨t :: us, u, vs, rfl, List.forall_mem_cons.2 ⟨ht, hus⟩, hu⟩

/-- There is a first malformed line if there is one before any cell magic. -/
theorem exists_firstOffence_iff {ts : List Text} :
    (∃ fault, FirstOffence kind ts fault) ↔ ∃ us u vs, ts = us ++ u :: vs ∧
      (∀ x ∈ us, classifyLine kind x ≠ .ok .cellMagic) ∧ IsMalformed kind u := by
  constructor
  · rintro ⟨fault, us, u, vs, rfl, hus, hu⟩
    exact ⟨us, u, vs, rfl, fun x hx => (hus x hx).1, isMalformed_iff.2 ⟨fault, hu⟩⟩
  · rintro ⟨us, u, vs, rfl, hus, hu⟩
    induction us with
    | nil =>
      obtain ⟨fault, hf⟩ := isMalformed_iff.1 hu
      exact ⟨fault, [], u, vs, rfl, by simp, hf⟩
    | cons x us ih =>
      obtain ⟨hx, hus⟩ := List.forall_mem_cons.1 hus
      obtain ⟨fault, hf⟩ := ih hus
      by_cases hm : IsMalformed kind x
      · obtain ⟨fault, hf⟩ := isMalformed_iff.1 hm
        exact ⟨fault, firstOffence_cons_iff.2 (.inl hf)⟩
      · exact ⟨fault, firstOffence_cons_iff.2 (.inr ⟨⟨hx, hm⟩, hf⟩)⟩

end Lines

section Faults

variable {rule : HeaderRule} {kind : BlockKind} {indent : Text} {fault : BlockFault}

theorem Phase.step_of_ok {p : Phase} (hp : p = .options ∨ p = .code) {t : Text} {k : LineKind}
    (h : classifyLine kind t = .ok k) :
    p.step rule kind t = .ok ((ofKind (p != .code) k).1, (ofKind (p != .code) k).2) := by
  rw [step_directive (hp.imp_right .inl), h]

theorem Phase.step_of_error {p : Phase} (hp : p = .options ∨ p = .code) {t : Text} {e : MagicError}
    (h : classifyLine kind t = .error e) : p.step rule kind t = .error (.magic e) := by
  rw [step_directive (hp.imp_right .inl), h]

theorem Phase.lineTags_ofKind (b : Bool) (k : LineKind) (t : Text) :
    lineTags (ofKind b k).1 t = lineTags k t := by
  cases k <;> cases b <;> rfl

theorem exists_closing (indent : Text) (ls : List Line) :
    (∀ t ∈ bareTexts indent ls, Header.isDelimiter t = false) ∨
      ∃ hs m rest, ls = hs ++ m :: rest ∧
        (∀ t ∈ bareTexts indent hs, Header.isDelimiter t = false) ∧
        Header.isDelimiter (Text.stripIndent indent m.content) := by
  induction ls with
  | nil => simp [bareTexts]
  | cons l ls ih =>
    by_cases hl : Header.isDelimiter (Text.stripIndent indent l.content)
    · exact .inr ⟨[], l, ls, rfl, by simp [bareTexts], hl⟩
    · have hl : Header.isDelimiter (Text.stripIndent indent l.content) = false := by simpa using hl
      rcases ih with hn | ⟨hs, m, rest, rfl, hh, hm⟩
      · exact .inl (List.forall_mem_cons.2 ⟨hl, hn⟩)
      · exact .inr ⟨l :: hs, m, rest, rfl, List.forall_mem_cons.2 ⟨hl, hh⟩, hm⟩

theorem afterHeader_append {d e : Text} {hs : List Text} (hd : Header.isDelimiter d)
    (hh : ∀ t ∈ hs, Header.isDelimiter t = false) (he : Header.isDelimiter e) (rest : List Text) :
    afterHeader .cell (d :: (hs ++ e :: rest)) = rest := by
  have hn : ∀ t ∈ hs, (!Header.isDelimiter t) = true := fun t ht => by simp [hh t ht]
  rw [afterHeader, if_pos hd, List.dropWhile_append_of_pos hn,
    List.dropWhile_cons_of_neg (by simp [he])]
  rfl

namespace Body

theorem classifyFrom_cons_of_error {p : Phase} {l : Line}
    (h : p.step rule kind (Text.stripIndent indent l.content) = .error fault) (ls : List Line) :
    classifyFrom rule kind indent p (l :: ls) = .error fault := by
  simp only [classifyFrom, h]
  rfl

theorem classifyFrom_cons_of_ok {p next : Phase} {l : Line} {k : LineKind}
    (h : p.step rule kind (Text.stripIndent indent l.content) = .ok (k, next)) (ls : List Line) :
    classifyFrom rule kind indent p (l :: ls) = .error fault ↔
      lineTags k (Text.stripIndent indent l.content) = .error fault ∨
        (∃ tags, lineTags k (Text.stripIndent indent l.content) = .ok tags) ∧
          classifyFrom rule kind indent next ls = .error fault := by
  simp only [classifyFrom, h, Except.bind_eq_error_iff, Except.ok.injEq, reduceCtorEq, and_false,
    exists_false, or_false, false_or, exists_eq_left', exists_and_right]

/-- Outside of headers the first malformed line decides the fault. -/
theorem classifyFrom_eq_error_iff {p : Phase} (hp : p = .options ∨ p = .code) {ls : List Line} :
    classifyFrom rule kind indent p ls = .error fault ↔
      FirstOffence kind (bareTexts indent ls) fault := by
  induction ls generalizing p with
  | nil =>
    have hh : p.inHeader = false := by rcases hp with rfl | rfl <;> rfl
    rw [classifyFrom_nil, hh]
    simp [FirstOffence, bareTexts]
  | cons l ls ih =>
    rw [bareTexts, List.map_cons, ← bareTexts, firstOffence_cons_iff]
    cases hc : classifyLine kind (Text.stripIndent indent l.content) with
    | error e =>
      have hm : IsMalformed kind (Text.stripIndent indent l.content) := .inl ⟨e, hc⟩
      rw [classifyFrom_cons_of_error (Phase.step_of_error hp hc), offends_iff_of_error hc]
      simp [hm, eq_comm]
    | ok k =>
      have hm : ¬ IsMalformed kind (Text.stripIndent indent l.content) ↔
          ∃ tags, lineTags k (Text.stripIndent indent l.content) = .ok tags := by
        simp only [isMalformed_iff, offends_iff_of_ok hc]
        cases lineTags k (Text.stripIndent indent l.content) <;> simp
      rw [classifyFrom_cons_of_ok (Phase.step_of_ok hp hc), Phase.lineTags_ofKind,
        offends_iff_of_ok hc, hm]
      by_cases hk : k = .cellMagic
      · subst hk
        simp [Phase.ofKind, classifyFrom_frozen]
      · have hn : (Phase.ofKind (p != .code) k).2 = .options ∨
            (Phase.ofKind (p != .code) k).2 = .code :=
          (Phase.ofKind_cases (b := p != .code) rfl).2.2 hk
        simp [ih hn, hk]

theorem classifyFrom_cons_of_option {p next : Phase} {l : Line}
    (h : p.step rule kind (Text.stripIndent indent l.content) = .ok (.cellOption, next))
    (ls : List Line) :
    classifyFrom rule kind indent p (l :: ls) = .error fault ↔
      classifyFrom rule kind indent next ls = .error fault := by
  simp [classifyFrom_cons_of_ok h, lineTags]

/-- The lines of a header are collected until it ends. -/
theorem classifyFrom_header_append {hs : List Line}
    (h : ∀ t ∈ bareTexts indent hs, Header.isDelimiter t = false) (xs : List Text)
    (ls : List Line) :
    classifyFrom rule kind indent (.header xs) (hs ++ ls) = .error fault ↔
      classifyFrom rule kind indent (.header (xs ++ bareTexts indent hs)) ls = .error fault := by
  induction hs generalizing xs with
  | nil => simp [bareTexts]
  | cons l hs ih =>
    obtain ⟨hl, h⟩ := List.forall_mem_cons.1 h
    have hstep : (Phase.header xs).step rule kind (Text.stripIndent indent l.content) =
        .ok (.cellOption, .header (xs ++ [Text.stripIndent indent l.content])) := by
      rw [Phase.step, if_neg (by simp [hl])]
    rw [List.cons_append, classifyFrom_cons_of_option hstep, ih h, List.append_assoc]
    rfl

theorem classifyFrom_first {ls : List Line}
    (h : ∀ t ∈ (bareTexts indent ls).head?, Header.isDelimiter t = false) :
    classifyFrom rule kind indent .first ls = classifyFrom rule kind indent .options ls := by
  cases ls with
  | nil => rfl
  | cons l ls =>
    have hd : Header.isDelimiter (Text.stripIndent indent l.content) = false := h _ rfl
    have hstep : Phase.first.step rule kind (Text.stripIndent indent l.content) =
        Phase.options.step rule kind (Text.stripIndent indent l.content) := by
      rw [Phase.step_directive (.inr (.inr ⟨rfl, hd⟩)), Phase.step_directive (.inl rfl)]
      rfl
    simp only [classifyFrom, hstep]

theorem classify_header_append {d : Line} {hs : List Line}
    (hd : Header.isDelimiter (Text.stripIndent indent d.content))
    (hh : ∀ t ∈ bareTexts indent hs, Header.isDelimiter t = false) (ls : List Line) :
    classify rule .cell indent (d :: (hs ++ ls)) = .error fault ↔
      classifyFrom rule .cell indent (.header (bareTexts indent hs)) ls = .error fault := by
  have hstep : Phase.first.step rule .cell (Text.stripIndent indent d.content) =
      .ok (.cellOption, .header []) := if_pos hd
  rw [classify, Phase.initial, classifyFrom_cons_of_option hstep, classifyFrom_header_append hh,
    List.nil_append]

/-- A faulty header decides the fault of its body. -/
theorem classify_of_headerFault {ls : List Line} {e : HeaderError}
    (h : HeaderFault rule kind (bareTexts indent ls) e) :
    classify rule kind indent ls = .error (.options e) := by
  generalize ht : bareTexts indent ls = ts at h
  cases h with
  | unterminated opens lines =>
    obtain ⟨d, hs, rfl, rfl, rfl⟩ := List.map_eq_cons_iff.1 ht
    rw [← List.append_nil hs, classify_header_append opens lines, classifyFrom_nil]
    rfl
  | rejected opens lines closes check =>
    obtain ⟨d, ls, rfl, rfl, htail⟩ := List.map_eq_cons_iff.1 ht
    obtain ⟨hs, ls, rfl, rfl, hend⟩ := List.map_eq_append_iff.1 htail
    obtain ⟨m, rest, rfl, rfl, rfl⟩ := List.map_eq_cons_iff.1 hend
    rw [classify_header_append opens lines]
    apply classifyFrom_cons_of_error
    rw [Phase.step, if_pos closes, bareTexts, check]

/-- After a header without a fault the first malformed line decides. -/
theorem classify_of_not_headerFault {ls : List Line}
    (h : ∀ e, ¬ HeaderFault rule kind (bareTexts indent ls) e) :
    classify rule kind indent ls = .error fault ↔
      FirstOffence kind (afterHeader kind (bareTexts indent ls)) fault := by
  cases kind with
  | plain =>
    rw [classify, Phase.initial, classifyFrom_eq_error_iff (.inr rfl), afterHeader]
    simp
  | cell =>
    cases ls with
    | nil => simp [classify, Phase.initial, classifyFrom, FirstOffence, bareTexts, afterHeader]
    | cons d ls =>
      by_cases hd : Header.isDelimiter (Text.stripIndent indent d.content)
      · rcases exists_closing indent ls with hn | ⟨hs, m, rest, rfl, hh, hm⟩
        · exact absurd (.unterminated hd hn) (h .unterminated)
        · have ht : bareTexts indent (d :: (hs ++ m :: rest)) =
              Text.stripIndent indent d.content :: (bareTexts indent hs ++
                Text.stripIndent indent m.content :: bareTexts indent rest) := by
            simp [bareTexts]
          rw [ht] at h
          have hc : Header.check rule (bareTexts indent hs) = .ok () := by
            cases hc : Header.check rule (bareTexts indent hs) with
            | error e => exact absurd (.rejected hd hh hm hc) (h e)
            | ok u => rfl
          have hstep : (Phase.header (bareTexts indent hs)).step rule .cell
              (Text.stripIndent indent m.content) = .ok (.cellOption, .options) := by
            rw [Phase.step, if_pos hm, hc]
          rw [classify_header_append hd hh, classifyFrom_cons_of_option hstep,
            classifyFrom_eq_error_iff (.inl rfl), ht, afterHeader_append hd hh hm]
      · have hh : ∀ t ∈ (bareTexts indent (d :: ls)).head?, Header.isDelimiter t = false := by
          simpa [bareTexts] using hd
        rw [classify, Phase.initial, classifyFrom_first hh, classifyFrom_eq_error_iff (.inl rfl),
          bareTexts, List.map_cons, afterHeader, if_neg hd]

/-- The header comes first, and after it the first malformed line. -/
theorem classify_eq_error_iff {ls : List Line} :
    classify rule kind indent ls = .error fault ↔
      (∃ e, HeaderFault rule kind (bareTexts indent ls) e ∧ fault = .options e) ∨
        (∀ e, ¬ HeaderFault rule kind (bareTexts indent ls) e) ∧
          FirstOffence kind (afterHeader kind (bareTexts indent ls)) fault := by
  by_cases h : ∃ e, HeaderFault rule kind (bareTexts indent ls) e
  · obtain ⟨e, he⟩ := h
    have hc := classify_of_headerFault he
    constructor
    · intro hf
      rw [hc] at hf
      exact .inl ⟨e, he, (Except.error.inj hf).symm⟩
    · rintro (⟨e', he', rfl⟩ | ⟨hn, -⟩)
      · exact classify_of_headerFault he'
      · exact absurd he (hn e)
  · have hn := not_exists.1 h
    rw [classify_of_not_headerFault hn]
    constructor
    · exact fun hf => .inr ⟨hn, hf⟩
    · rintro (⟨e, he, -⟩ | ⟨-, hf⟩)
      · exact absurd he (hn e)
      · exact hf

end Body

end Faults

section Kinds

variable {rule : HeaderRule} {kind : BlockKind} {indent : Text}

theorem CodeEnd.cons {k : LineKind} {ks : List LineKind}
    (hk : k = .source ∨ k = .command ∨ k = .lineMagic ∨ k = .tags) (h : CodeEnd ks) :
    CodeEnd (k :: ks) := by
  obtain ⟨code, rest, rfl, hc, hr⟩ := h
  exact ⟨k :: code, rest, rfl, List.forall_mem_cons.2 ⟨hk, hc⟩, hr⟩

theorem OptionEnd.cons {k : LineKind} {ks : List LineKind} (hk : k = .cellOption ∨ k = .tags)
    (h : OptionEnd ks) : OptionEnd (k :: ks) := by
  obtain ⟨options, rest, rfl, ho, hr⟩ := h
  exact ⟨k :: options, rest, rfl, List.forall_mem_cons.2 ⟨hk, ho⟩, hr⟩

theorem CodeEnd.optionEnd {ks : List LineKind} (h : CodeEnd ks) : OptionEnd ks :=
  ⟨[], ks, rfl, by simp, h⟩

namespace Phase

/-- What may still come in a phase. -/
def Rest : Phase → List LineKind → Prop
  | .frozen, ks => ∃ n, ks = List.replicate n .frozen
  | .code, ks => CodeEnd ks
  | _, ks => OptionEnd ks

theorem rest_of_codeEnd {p : Phase} (hp : p ≠ .frozen) {ks : List LineKind} (h : CodeEnd ks) :
    p.Rest ks := by
  cases p with
  | frozen => exact absurd rfl hp
  | code => exact h
  | _ => exact h.optionEnd

theorem rest_nil (p : Phase) : p.Rest [] := by
  have hc : CodeEnd [] := ⟨[], [], rfl, by simp, .inl rfl⟩
  by_cases hp : p = .frozen
  · subst hp
    exact ⟨0, rfl⟩
  · exact rest_of_codeEnd hp hc

theorem rest_ofKind {p next : Phase} {k k' : LineKind} {ks : List LineKind}
    (hp : p = .options ∨ p = .code ∨ p = .first) (hk : k ≠ .frozen)
    (h : ofKind (p != .code) k = (k', next)) (hr : next.Rest ks) : p.Rest (k' :: ks) := by
  have hf : p ≠ .frozen := by rcases hp with rfl | rfl | rfl <;> simp
  cases k with
  | frozen => exact absurd rfl hk
  | source | command | lineMagic =>
    obtain ⟨rfl, rfl⟩ := Prod.mk.inj h
    exact rest_of_codeEnd hf (hr.cons (by simp))
  | cellMagic =>
    obtain ⟨rfl, rfl⟩ := Prod.mk.inj h
    obtain ⟨n, rfl⟩ := hr
    exact rest_of_codeEnd hf ⟨[], _, rfl, by simp, .inr ⟨n, rfl⟩⟩
  | tags | cellOption =>
    rcases hp with rfl | rfl | rfl
    all_goals
      obtain ⟨rfl, rfl⟩ := Prod.mk.inj h
      exact hr.cons (by simp)

/-- One line more keeps to what may come. -/
theorem rest_step {p next : Phase} {t : Text} {k : LineKind} {ks : List LineKind}
    (h : p.step rule kind t = .ok (k, next)) (hr : next.Rest ks) : p.Rest (k :: ks) := by
  rcases p.step_cases rule kind t with ⟨hp, hs⟩ | ⟨rfl, hs⟩ | ⟨⟨rfl, hd⟩ | hp, -⟩
  · rw [hs] at h
    cases hc : classifyLine kind t with
    | error e =>
      rw [hc] at h
      contradiction
    | ok k₀ =>
      rw [hc] at h
      exact rest_ofKind (hp.imp_right (.imp_right And.left)) (classifyLine_cases hc).1
        (Except.ok.inj h) hr
  · rw [hs] at h
    obtain ⟨rfl, rfl⟩ := Prod.mk.inj (Except.ok.inj h)
    obtain ⟨n, rfl⟩ := hr
    exact ⟨n + 1, rfl⟩
  · rw [step, if_pos hd] at h
    obtain ⟨rfl, rfl⟩ := Prod.mk.inj (Except.ok.inj h)
    exact hr.cons (.inl rfl)
  · cases p with
    | header xs =>
      rw [step] at h
      split at h
      · split at h
        · obtain ⟨rfl, rfl⟩ := Prod.mk.inj (Except.ok.inj h)
          exact hr.cons (.inl rfl)
        · contradiction
      · obtain ⟨rfl, rfl⟩ := Prod.mk.inj (Except.ok.inj h)
        exact hr.cons (.inl rfl)
    | _ => contradiction

theorem step_plain {p next : Phase} {t : Text} {k : LineKind} (hp : p = .code ∨ p = .frozen)
    (h : p.step rule .plain t = .ok (k, next)) :
    (k ≠ .cellOption ∧ k ≠ .tags) ∧ (next = .code ∨ next = .frozen) := by
  rcases hp with rfl | rfl
  · rw [step_directive (.inr (.inl rfl))] at h
    cases hc : classifyLine .plain t with
    | error e =>
      rw [hc] at h
      contradiction
    | ok k₀ =>
      rw [hc] at h
      obtain ⟨ht, ho⟩ := (classifyLine_cases hc).2 rfl
      have hk := Except.ok.inj h
      cases k₀ <;> cases hk <;> simp_all
  · obtain ⟨rfl, rfl⟩ := Prod.mk.inj (Except.ok.inj h)
    simp

end Phase

theorem Reads.rest {p last : Phase} {ls : List BodyLine} (h : Reads rule kind indent p ls last) :
    p.Rest (ls.map BodyLine.kind) := by
  induction h with
  | nil => exact Phase.rest_nil _
  | cons _ step _ _ ih => exact Phase.rest_step step ih

theorem Reads.plain {p last : Phase} {ls : List BodyLine} (h : Reads rule .plain indent p ls last)
    (hp : p = .code ∨ p = .frozen) : ∀ k ∈ ls.map BodyLine.kind, k ≠ .cellOption ∧ k ≠ .tags := by
  induction h with
  | nil => simp
  | cons _ step _ _ ih =>
    obtain ⟨hk, hn⟩ := Phase.step_plain hp step
    exact List.forall_mem_cons.2 ⟨hk, ih hn⟩

theorem Reads.kindShape {ls : List BodyLine} {last : Phase}
    (h : Reads rule kind indent (.initial kind) ls last) :
    KindShape kind (ls.map BodyLine.kind) where
  stretches := by
    cases kind with
    | cell => exact h.rest
    | plain => exact CodeEnd.optionEnd h.rest
  plain := by
    rintro rfl
    exact h.plain (.inl rfl)

end Kinds

section Union

variable {rule : HeaderRule} {kind : BlockKind} {indent : Text}

/-- Parts of a list may be rid of repetitions before the whole is. -/
theorem eraseDups_append_eraseDups (as bs : List Text) :
    (as ++ bs.eraseDups).eraseDups = (as ++ bs).eraseDups := by
  induction bs using List.reverseRecOn with
  | nil => rfl
  | append_singleton bs b ih =>
    rw [← List.append_assoc]
    by_cases hb : b ∈ bs
    · rw [Tags.eraseDups_append_of_mem hb, ih, Tags.eraseDups_append_of_mem (by simp [hb])]
    · rw [Tags.eraseDups_append_of_not_mem hb, ← List.append_assoc]
      by_cases ha : b ∈ as
      · rw [Tags.eraseDups_append_of_mem (by simp [ha]), ih,
          Tags.eraseDups_append_of_mem (by simp [ha])]
      · rw [Tags.eraseDups_append_of_not_mem (by simp [ha, hb]), ih,
          Tags.eraseDups_append_of_not_mem (by simp [ha, hb])]

theorem eraseDups_of_parse {t : Text} {ts : List Text} (h : Tags.parse t = .ok ts) :
    ts.eraseDups = ts := by
  obtain ⟨-, ss, -, -, -, -, rfl⟩ := Tags.parse_eq_ok_iff.1 h
  exact eraseDups_append_eraseDups [] ss

theorem lineTags_of_ne {k : LineKind} (h : k ≠ .tags) (t : Text) : lineTags k t = .ok none := by
  cases k <;> first | rfl | contradiction

/-- The tags of a body are those of its tag lines. -/
theorem Body.tags_of_classifyFrom {p : Phase} {ls : List Line} {c : Body}
    (h : classifyFrom rule kind indent p ls = .ok c) :
    ∃ tss,
      List.Forall₂ (fun l ts => Tags.parse l.text = .ok ts) (c.lines.filter (·.kind = .tags)) tss ∧
        c.tags = if tss = [] then none else some tss.flatten.eraseDups := by
  induction ls generalizing p c with
  | nil =>
    rw [classifyFrom_nil] at h
    split at h
    · contradiction
    · obtain rfl := Except.ok.inj h
      exact ⟨[], .nil, rfl⟩
  | cons l ls ih =>
    obtain ⟨k, next, tags, rest, -, ht, hr, rfl⟩ := classifyFrom_cons_eq_ok_iff.1 h
    obtain ⟨tss, hp, he⟩ := ih hr
    by_cases hk : k = .tags
    · subst hk
      rw [lineTags] at ht
      split at ht
      · next ts hts =>
        obtain rfl := Except.ok.inj ht
        refine ⟨ts :: tss, by simpa using ⟨hts, hp⟩, ?_⟩
        by_cases hn : tss = []
        · subst hn
          simp [he, unionTags, eraseDups_of_parse hts]
        · simp [he, hn, unionTags, eraseDups_append_eraseDups]
      · contradiction
    · rw [lineTags_of_ne hk] at ht
      obtain rfl := Except.ok.inj ht
      exact ⟨tss, by simpa [hk] using hp, he⟩

end Union

theorem Body.shaped_of_classify {rule : HeaderRule} {kind : BlockKind} {indent : Text}
    {ls : List Line} {c : Body} (h : classify rule kind indent ls = .ok c) :
    c.Shaped kind indent ls := by
  obtain ⟨hc, last, hr, -⟩ := classify_eq_ok h
  obtain ⟨tss, hp, ht⟩ := tags_of_classifyFrom h
  have hn : tss = [] ↔ ∀ l ∈ c.lines, l.kind ≠ .tags := by
    rw [← List.length_eq_zero_iff, ← hp.length_eq, List.length_eq_zero_iff]
    simp [List.filter_eq_nil_iff]
  refine ⟨?_, map_text_of_classify h, hr.kindShape, ?_, fun tags htags => ⟨tss, hp, ?_⟩⟩
  · rw [← hc, List.map_map]
    rfl
  · rw [ht, ← hn]
    by_cases he : tss = [] <;> simp [he]
  · rw [ht] at htags
    split at htags
    · contradiction
    · exact Tags.firstSeen_iff.2 (Option.some.inj htags).symm

/-- What is read of a body has its shape. It cannot be read if it is a cell with a faulty header, or
if a line outside of the header is malformed and no cell magic comes before it. The fault is then
that of the header, or else that of the first such line. -/
theorem Body.classify_shape (rule : HeaderRule) (kind : BlockKind) (indent : Text)
    (ls : List Line) :
    (∀ c, classify rule kind indent ls = .ok c → c.Shaped kind indent ls) ∧
      ((∃ fault, classify rule kind indent ls = .error fault) ↔
        (∃ e, HeaderFault rule kind (bareTexts indent ls) e) ∨
          ∃ us u vs, afterHeader kind (bareTexts indent ls) = us ++ u :: vs ∧
            (∀ x ∈ us, classifyLine kind x ≠ .ok .cellMagic) ∧ IsMalformed kind u) ∧
      ∀ fault, classify rule kind indent ls = .error fault ↔
        (∃ e, HeaderFault rule kind (bareTexts indent ls) e ∧ fault = .options e) ∨
          (∀ e, ¬ HeaderFault rule kind (bareTexts indent ls) e) ∧
            FirstOffence kind (afterHeader kind (bareTexts indent ls)) fault := by
  refine ⟨fun c => shaped_of_classify, ?_, fun fault => classify_eq_error_iff⟩
  rw [← exists_firstOffence_iff]
  by_cases h : ∃ e, HeaderFault rule kind (bareTexts indent ls) e
  · obtain ⟨e, he⟩ := h
    exact iff_of_true ⟨_, classify_of_headerFault he⟩ (.inl ⟨e, he⟩)
  · simp only [classify_of_not_headerFault (not_exists.1 h), h, false_or]

/-- A cell with a header, tags in two places, and a line that is frozen. -/
def mixedLines : List Line :=
  Text.splitLines ("  ---\n  a: 1\n  ---\n  :tags: ['a', \"b\"]\n  :name: c\n  x=1\n" ++
    "  :tags: [\"b\", 'c']\n  :name: d\n  %%sh\n  %%%\n").toList

theorem Body.classify_shape_mixedLines :
    (∃ c, classify Header.rule .cell "  ".toList mixedLines = .ok c ∧
        c.tags = some ["a".toList, "b".toList, "c".toList] ∧
        c.Shaped .cell "  ".toList mixedLines) ∧
      FirstOffence .cell (afterHeader .cell (bareTexts "  ".toList mixedLines.reverse))
        (.magic ⟨"%%%".toList, "3 leading '%' characters, at most two are allowed"⟩) := by
  have htags : (classify Header.rule .cell "  ".toList mixedLines).toOption.map Body.tags =
      some (some ["a".toList, "b".toList, "c".toList]) := by
    decide +kernel
  constructor
  · cases hc : classify Header.rule .cell "  ".toList mixedLines with
    | error fault =>
      rw [hc] at htags
      contradiction
    | ok c =>
      rw [hc] at htags
      exact ⟨c, rfl, Option.some.inj htags,
        (classify_shape Header.rule .cell "  ".toList mixedLines).1 c hc⟩
  · have hfault : classify Header.rule .cell "  ".toList mixedLines.reverse =
        .error (.magic ⟨"%%%".toList, "3 leading '%' characters, at most two are allowed"⟩) := by
      decide +kernel
    rcases ((classify_shape Header.rule .cell "  ".toList mixedLines.reverse).2.2 _).1 hfault with
      ⟨e, -, he⟩ | ⟨-, hf⟩
    · exact BlockFault.noConfusion he
    · exact hf

end FencedCode
