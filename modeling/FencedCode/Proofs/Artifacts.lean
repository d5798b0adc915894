import FencedCode.Body.Basic
import FencedCode.Proofs.Results
import FencedCode.Proofs.Space

/-! Artifacts without the space at their ends: they are of the same kind, and tag lines have the
same tags. -/
namespace FencedCode

/-- What a line may lose at its end: spaces, tabs, and the carriage return that they lay bare. -/
def isSoft (c : Char) : Bool := isPadding c || c == '\r'

theorem isSoft_cases {c : Char} (h : isSoft c) : c = ' ' ∨ c = '\t' ∨ c = '\r' := by
  simpa [isSoft, isPadding, or_assoc] using h

theorem isBlank_of_isSoft {c : Char} (h : isSoft c) : isBlank c := by
  rcases isSoft_cases h with rfl | rfl | rfl <;> decide

theorem isSpace_of_isSoft {c : Char} (h : isSoft c) : Tags.isSpace c := by
  rcases isSoft_cases h with rfl | rfl | rfl <;> decide

theorem not_isWordChar_of_isSoft {c : Char} (h : isSoft c) :
    (isWordChar c || c == '-') = false := by
  rcases isSoft_cases h with rfl | rfl | rfl <;> decide +kernel

theorem ne_percent_of_isSoft {c : Char} (h : isSoft c) : (c == '%') = false := by
  rcases isSoft_cases h with rfl | rfl | rfl <;> decide

variable {tail : Text}

section Search

variable (ht : ∀ c ∈ tail, isSoft c) {p : Char → Bool} (hp : ∀ c, isSoft c → p c = false)

include ht hp

theorem takeWhile_append_of_soft (t : Text) : (t ++ tail).takeWhile p = t.takeWhile p := by
  induction t with
  | nil =>
    cases tail with
    | nil => rfl
    | cons c tail =>
      rw [List.nil_append, List.takeWhile_cons, hp c (ht c List.mem_cons_self)]
      rfl
  | cons c t ih => rw [List.cons_append, List.takeWhile_cons, List.takeWhile_cons, ih]

theorem dropWhile_append_of_soft (t : Text) : (t ++ tail).dropWhile p = t.dropWhile p ++ tail := by
  induction t with
  | nil =>
    cases tail with
    | nil => rfl
    | cons c tail =>
      rw [List.nil_append, List.dropWhile_cons, hp c (ht c List.mem_cons_self)]
      rfl
  | cons c t ih =>
    rw [List.cons_append, List.dropWhile_cons, List.dropWhile_cons, ih]
    split <;> rfl

end Search

/-- A mark without soft characters does not reach into a soft end. -/
theorem isPrefix_of_append_soft (ht : ∀ c ∈ tail, isSoft c) {m t : Text}
    (hm : m.any isSoft = false) (h : m <+: t ++ tail) : m <+: t := by
  rcases Nat.le_total m.length t.length with hl | hl
  · exact List.prefix_of_prefix_length_le h (List.prefix_append t tail) hl
  · obtain ⟨v, rfl⟩ := List.prefix_of_prefix_length_le (List.prefix_append t tail) h hl
    rw [List.prefix_append_right_inj] at h
    cases v with
    | nil => simp
    | cons c v =>
      exact absurd (ht c (h.subset List.mem_cons_self)) (List.any_eq_false.1 hm c (by simp))

namespace Tags

theorem skipSpace_append (ht : ∀ c ∈ tail, isSoft c) (t : Text) :
    skipSpace (t ++ tail) = if skipSpace t = [] then [] else skipSpace t ++ tail := by
  have hn : tail.dropWhile isSpace = [] :=
    List.dropWhile_eq_nil_iff.2 fun c hc => isSpace_of_isSoft (ht c hc)
  simp only [skipSpace, List.dropWhile_append, hn, List.isEmpty_iff]
  rfl

theorem items?_eq_none {quote : Char} {t : Text} (h : quote ∉ t) : items? quote t = none := by
  fun_induction items? quote t with
  | case1 => rfl
  | case2 r => simp at h
  | case3 => rfl
  | case4 => rfl
  | case5 _ _ _ _ _ ih => simp_all
  | case6 => rfl
  | case7 _ _ _ _ _ ih => simp_all

theorem items?_cons (quote c : Char) (r : Text) :
    items? quote (c :: r) =
      if c = quote then some ([], r)
      else if c = '\\' then
        match r with
        | [] => none
        | e :: r =>
          match unescape? e with
          | none => none
          | some v => (items? quote r).map fun (s, rest) => (v :: s, rest)
      else if c = '\n' then none
      else (items? quote r).map fun (s, rest) => (c :: s, rest) := by
  rw [items?.eq_def]
  rfl

/-- Reading a literal does not depend on a soft end of the text. -/
theorem items?_append {quote : Char} (hq : isSoft quote = false) (ht : ∀ c ∈ tail, isSoft c)
    (t : Text) :
    items? quote (t ++ tail) = (items? quote t).map fun p => (p.1, p.2 ++ tail) := by
  have hn : items? quote tail = none := by
    refine items?_eq_none fun hm => ?_
    rw [ht quote hm] at hq
    contradiction
  fun_induction items? quote t with
  | case1 => rw [List.nil_append, hn]; rfl
  | case2 r => rw [List.cons_append, items?_cons, if_pos rfl]; rfl
  | case3 hq =>
    rw [List.singleton_append, items?_cons, if_neg hq, if_pos rfl]
    cases tail with
    | nil => rfl
    | cons e tail =>
      rcases isSoft_cases (ht e List.mem_cons_self) with rfl | rfl | rfl <;> rfl
  | case4 e r hu hq =>
    rw [List.cons_append, List.cons_append, items?_cons, if_neg hq, if_pos rfl]
    simp only [hu, Option.map_none]
  | case5 e r v hu hq ih =>
    rw [List.cons_append, List.cons_append, items?_cons, if_neg hq, if_pos rfl]
    simp only [hu, ih, Option.map_map, Function.comp_def]
  | case6 r hq hb => rw [List.cons_append, items?_cons, if_neg hq, if_neg hb, if_pos rfl]; rfl
  | case7 c r hq hb hl ih =>
    rw [List.cons_append, items?_cons, if_neg hq, if_neg hb, if_neg hl, ih]
    simp only [Option.map_map, Function.comp_def]

theorem literal?_append (ht : ∀ c ∈ tail, isSoft c) (t : Text) :
    literal? (t ++ tail) = (literal? t).map fun p => (p.1, p.2 ++ tail) := by
  cases t with
  | nil =>
    cases tail with
    | nil => rfl
    | cons c tail =>
      rcases isSoft_cases (ht c List.mem_cons_self) with rfl | rfl | rfl <;> rfl
  | cons c t =>
    rw [List.cons_append, literal?, literal?]
    split
    · next hq =>
      refine items?_append ?_ ht t
      simp only [Bool.or_eq_true, decide_eq_true_eq] at hq
      rcases hq with rfl | rfl <;> decide
    · rfl

/-- The next literal after a comma. -/
theorem next_append (ht : ∀ c ∈ tail, isSoft c) (t : Text) :
    (afterComma? (t ++ tail)).bind literal? =
      ((afterComma? t).bind literal?).map fun p => (p.1, p.2 ++ tail) := by
  rw [afterComma?, afterComma?, skipSpace_append ht]
  cases hs : skipSpace t with
  | nil => rfl
  | cons c r =>
    rw [if_neg (by simp), List.cons_append]
    by_cases hc : c = ','
    · subst hc
      simp only [Option.bind_some]
      rw [skipSpace_append ht]
      by_cases hr : skipSpace r = []
      · rw [if_pos hr, hr]
        rfl
      · rw [if_neg hr, literal?_append ht]
    · split
      · next h => exact absurd (List.cons.inj h).1 hc
      · split
        · next h => exact absurd (List.cons.inj h).1 hc
        · rfl

theorem moreLiterals_of_none {t : Text} (h : (afterComma? t).bind literal? = none) :
    moreLiterals t = ([], t) := by
  rw [moreLiterals]
  split
  · rfl
  · next r hr =>
    rw [hr, Option.bind_some] at h
    split
    · rfl
    · next hs =>
      rw [h] at hs
      contradiction

theorem moreLiterals_of_some {t s rest : Text}
    (h : (afterComma? t).bind literal? = some (s, rest)) :
    moreLiterals t = (s :: (moreLiterals rest).1, (moreLiterals rest).2) := by
  rw [moreLiterals]
  split
  · next hr =>
    rw [hr] at h
    contradiction
  · next r hr =>
    rw [hr, Option.bind_some] at h
    split
    · next hs =>
      rw [h] at hs
      contradiction
    · next s' rest' hs =>
      obtain ⟨rfl, rfl⟩ := Prod.mk.inj (Option.some.inj (h.symm.trans hs))
      rfl

theorem moreLiterals_append (ht : ∀ c ∈ tail, isSoft c) (t : Text) :
    moreLiterals (t ++ tail) = ((moreLiterals t).1, (moreLiterals t).2 ++ tail) := by
  induction hn : t.length using Nat.strongRecOn generalizing t with
  | ind n ih =>
    have ha := next_append ht t
    cases h : (afterComma? t).bind literal? with
    | none =>
      rw [h] at ha
      rw [moreLiterals_of_none h, moreLiterals_of_none ha]
    | some p =>
      obtain ⟨s, rest⟩ := p
      obtain ⟨r, hr, hl⟩ := Option.bind_eq_some_iff.1 h
      have hlt := Nat.lt_trans (literal?_length_lt hl) (afterComma?_length_lt hr)
      rw [h] at ha
      rw [moreLiterals_of_some h, moreLiterals_of_some ha, ih rest.length (hn ▸ hlt) rest rfl]

theorem literals_append (ht : ∀ c ∈ tail, isSoft c) (t : Text) :
    literals (t ++ tail) = ((literals t).1, (literals t).2 ++ tail) := by
  rw [literals, literals, literal?_append ht]
  cases literal? t with
  | none => rfl
  | some p => simp only [Option.map_some, moreLiterals_append ht]

theorem skipComma_append (ht : ∀ c ∈ tail, isSoft c) (t : Text) :
    skipComma (t ++ tail) = skipComma t ++ tail := by
  rw [skipComma, skipComma, skipSpace_append ht]
  cases hs : skipSpace t with
  | nil => rfl
  | cons c r =>
    rw [if_neg (by simp), List.cons_append]
    by_cases hc : c = ','
    · subst hc
      rfl
    · split
      · next h => exact absurd (List.cons.inj h).1 hc
      · split
        · next h => exact absurd (List.cons.inj h).1 hc
        · rfl

theorem list_eq_ok_iff {t rest : Text} {ss : List Text} :
    list t = .ok (ss, rest) ↔ ∃ r, t = '[' :: r ∧ (literals (skipSpace r)).1 = ss ∧
      skipSpace (if ss.isEmpty then (literals (skipSpace r)).2
        else skipComma (literals (skipSpace r)).2) = ']' :: rest := by
  rw [list.eq_def]
  split
  · next r =>
    simp only [List.cons.injEq, true_and, exists_eq_left']
    cases literals (skipSpace r) with
    | mk ls more =>
      simp only
      constructor
      · intro h
        split at h
        · next h' =>
          obtain ⟨rfl, rfl⟩ := Prod.mk.inj (Except.ok.inj h)
          exact ⟨rfl, h'⟩
        · contradiction
      · rintro ⟨rfl, h⟩
        simp only [h]
  · next hn =>
    simp only [reduceCtorEq, false_iff, not_exists, not_and]
    rintro r rfl
    exact absurd rfl (hn r)

/-- A bracketed list ends in its bracket, whatever soft end comes after. -/
theorem list_of_append (ht : ∀ c ∈ tail, isSoft c) {t rest : Text} {ss : List Text}
    (h : list (t ++ tail) = .ok (ss, rest)) : ∃ r, list t = .ok (ss, r) ∧ rest = r ++ tail := by
  obtain ⟨r, hr, hs, hc⟩ := list_eq_ok_iff.1 h
  obtain ⟨u, rfl, rfl⟩ : ∃ u, t = '[' :: u ∧ r = u ++ tail := by
    cases t with
    | nil =>
      rw [List.nil_append] at hr
      exact absurd (ht '[' (hr ▸ List.mem_cons_self)) (by decide)
    | cons c u =>
      obtain ⟨rfl, rfl⟩ := List.cons.inj hr
      exact ⟨u, rfl, rfl⟩
  rw [skipSpace_append ht] at hs hc
  by_cases hu : skipSpace u = []
  · -- After the opening bracket there is nothing that could close it.
    rw [if_pos hu] at hs hc
    subst hs
    exact absurd hc (by simp [literals, literal?, skipSpace])
  · rw [if_neg hu, literals_append ht] at hs hc
    simp only at hs
    subst hs
    rw [skipComma_append ht, ← apply_ite (· ++ tail), skipSpace_append ht] at hc
    generalize he : (if (literals (skipSpace u)).1.isEmpty then (literals (skipSpace u)).2
      else skipComma (literals (skipSpace u)).2) = x at hc
    by_cases hx : skipSpace x = []
    · rw [if_pos hx] at hc
      contradiction
    · obtain ⟨d, ds, hd⟩ := List.exists_cons_of_ne_nil hx
      rw [if_neg hx, hd, List.cons_append, List.cons.injEq] at hc
      obtain ⟨rfl, rfl⟩ := hc
      exact ⟨ds, list_eq_ok_iff.2 ⟨u, rfl, rfl, he ▸ hd⟩, rfl⟩

theorem parse_eq_ok_iff {line : Text} {tags : List Text} :
    parse line = .ok tags ↔ ∃ rest ss more, line.trimStart = marker ++ rest ∧
      list (skipSpace rest) = .ok (ss, more) ∧ skipSpace more = [] ∧ tags = ss.eraseDups := by
  rw [parse, Except.mapError_eq_ok_iff, read]
  cases hm : marker.isPrefixOf? line.trimStart with
  | none =>
    simp only [reduceCtorEq, false_iff, not_exists, not_and]
    rintro rest ss more hr
    rw [List.isPrefixOf?_eq_some_iff_append_eq.2 hr.symm] at hm
    contradiction
  | some rest =>
    rw [List.isPrefixOf?_eq_some_iff_append_eq] at hm
    simp only [← hm, List.append_cancel_left_eq, exists_and_left, exists_eq_left']
    cases list (skipSpace rest) with
    | error e => simp
    | ok p =>
      obtain ⟨ss, more⟩ := p
      simp only [Except.ok.injEq, Prod.mk.injEq]
      constructor
      · intro h
        split at h
        · next hs => exact ⟨ss, more, ⟨rfl, rfl⟩, hs, (Except.ok.inj h).symm⟩
        · contradiction
      · rintro ⟨_, _, ⟨rfl, rfl⟩, hs, rfl⟩
        rw [hs]

/-- The tags of a line do not depend on its soft end. -/
theorem parse_of_append (ht : ∀ c ∈ tail, isSoft c) {t : Text} (hb : t.isAllBlank = false)
    {tags : List Text} (h : parse (t ++ tail) = .ok tags) : parse t = .ok tags := by
  obtain ⟨rest, ss, more, hr, hl, hm, rfl⟩ := parse_eq_ok_iff.1 h
  rw [Text.trimStart_append hb] at hr
  obtain ⟨u, hu⟩ := isPrefix_of_append_soft ht (m := marker) (by decide) ⟨rest, hr.symm⟩
  obtain rfl : u ++ tail = rest := by
    rw [← hu, List.append_assoc] at hr
    exact List.append_cancel_left hr
  rw [skipSpace_append ht] at hl
  by_cases he : skipSpace u = []
  · rw [if_pos he] at hl
    contradiction
  · rw [if_neg he] at hl
    obtain ⟨r, hl', rfl⟩ := list_of_append ht hl
    refine parse_eq_ok_iff.2 ⟨u, ss, r, hu.symm, hl', ?_, rfl⟩
    rw [skipSpace_append ht] at hm
    by_cases hn : skipSpace r = []
    · exact hn
    · rw [if_neg hn] at hm
      exact (List.append_eq_nil_iff.1 hm).1

theorem isTagLine_iff {t : Text} : isTagLine t ↔ marker <+: t.trimStart := by
  rw [isTagLine, List.isPrefixOf_iff_prefix]

end Tags

theorem isCellOption_iff {t : Text} :
    isCellOption t ↔ ∃ c r d, t = ':' :: c :: r ∧ c.isAlpha ∧
      (r.dropWhile fun c => isWordChar c || c == '-') = ':' :: d ∧ ∀ e ∈ d.head?, isBlank e := by
  rw [isCellOption.eq_def]
  split
  · next c r =>
    rw [Bool.and_eq_true]
    constructor
    · rintro ⟨hc, h⟩
      split at h
      · next hd => exact ⟨c, r, [], rfl, hc, hd, by simp⟩
      · next e es hd => exact ⟨c, r, e :: es, rfl, hc, hd, by simpa using h⟩
      · contradiction
    · rintro ⟨c', r', d, he, hc, hd, hb⟩
      obtain ⟨rfl, rfl⟩ := List.cons.inj (List.cons.inj he).2
      refine ⟨hc, ?_⟩
      rw [hd]
      cases d with
      | nil => rfl
      | cons e es => exact hb e rfl
  · next hn =>
    simp only [Bool.false_eq_true, false_iff, not_exists, not_and]
    rintro c r d rfl
    exact absurd rfl (hn c r)

theorem isCellOption_of_append (ht : ∀ c ∈ tail, isSoft c) {t : Text} (hn : t ≠ [])
    (h : isCellOption (t ++ tail)) : isCellOption t := by
  obtain ⟨c, r, d, he, hc, hd, hb⟩ := isCellOption_iff.1 h
  obtain ⟨x, u, rfl⟩ := List.exists_cons_of_ne_nil hn
  rw [List.cons_append, List.cons.injEq] at he
  obtain ⟨rfl, he⟩ := he
  cases u with
  | nil =>
    rw [List.nil_append] at he
    have hs := ht c (he ▸ List.mem_cons_self)
    rcases isSoft_cases hs with rfl | rfl | rfl <;> contradiction
  | cons y u =>
    rw [List.cons_append, List.cons.injEq] at he
    obtain ⟨rfl, rfl⟩ := he
    rw [dropWhile_append_of_soft ht fun c => not_isWordChar_of_isSoft] at hd
    refine isCellOption_iff.2 ?_
    cases hu : u.dropWhile fun c => isWordChar c || c == '-' with
    | nil =>
      rw [hu, List.nil_append] at hd
      exact absurd (ht ':' (hd ▸ List.mem_cons_self)) (by decide)
    | cons z ds =>
      rw [hu, List.cons_append, List.cons.injEq] at hd
      obtain ⟨rfl, rfl⟩ := hd
      refine ⟨y, u, ds, rfl, hc, hu, ?_⟩
      intro e hm
      apply hb
      cases ds with
      | nil => contradiction
      | cons a as => exact hm

theorem classifyMagic_of_append (ht : ∀ c ∈ tail, isSoft c) {line line' t : Text} {k : LineKind}
    (hv : k.isVerbatim = false) (h : classifyMagic line (t ++ tail) = .ok k) :
    classifyMagic line' t = .ok k := by
  rw [classifyMagic, takeWhile_append_of_soft ht fun c => ne_percent_of_isSoft] at h
  rw [classifyMagic]
  split at h
  · exact h
  · split at h
    · obtain rfl := Except.ok.inj h
      contradiction
    · contradiction
  · contradiction

/-- An artifact that loses a soft end is of the same kind. Cell magics, which keep theirs, are
left out. -/
theorem classifyLine_of_append (ht : ∀ c ∈ tail, isSoft c) {kind : BlockKind} {t : Text}
    (hb : t.isAllBlank = false) {k : LineKind} (ha : k.isArtifact) (hv : k.isVerbatim = false)
    (h : classifyLine kind (t ++ tail) = .ok k) : classifyLine kind t = .ok k := by
  rw [← Text.isAllBlank_trimStart] at hb
  rw [classifyLine] at h ⊢
  simp only [Text.trimStart_append (Text.isAllBlank_trimStart t ▸ hb)] at h
  generalize t.trimStart = u at h hb ⊢
  have htag : Tags.isTagLine (u ++ tail) = Tags.isTagLine u := by
    rw [Bool.eq_iff_iff, Tags.isTagLine_iff, Tags.isTagLine_iff, Text.trimStart_append hb]
    exact ⟨isPrefix_of_append_soft ht (by decide), fun h => h.trans (List.prefix_append _ _)⟩
  obtain ⟨c, r, rfl⟩ := Text.exists_cons_of_not_isAllBlank hb
  by_cases hc : c = '!'
  · subst hc
    exact h
  by_cases hm : c = '%'
  · subst hm
    exact classifyMagic_of_append ht hv h
  split at h
  · next he => exact absurd (List.cons.inj he).1 hc
  · next he => exact absurd (List.cons.inj he).1 hm
  · split
    · next he => exact absurd (List.cons.inj he).1 hc
    · next he => exact absurd (List.cons.inj he).1 hm
    · rw [htag] at h
      split at h
      · next hk => rw [if_pos hk]; exact h
      · next hk =>
        rw [if_neg hk]
        split at h
        · next ho =>
          rw [Bool.and_eq_true] at ho
          rw [if_pos (Bool.and_eq_true _ _ ▸ ⟨ho.1, isCellOption_of_append ht (by simp) ho.2⟩)]
          exact h
        · obtain rfl := Except.ok.inj h
          contradiction

end FencedCode
