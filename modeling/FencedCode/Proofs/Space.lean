import FencedCode.Text.Line
import Mathlib.Data.List.Basic
import Mathlib.Data.List.TakeWhile

/-! Space at the ends of lines: what trimming and the removal of an indentation leave, and how both
behave under space that is added to a line. -/
namespace FencedCode

theorem isPadding_iff {c : Char} : isPadding c ↔ c = ' ' ∨ c = '\t' := by simp [isPadding]

theorem isBlank_of_isPadding {c : Char} (h : isPadding c) : isBlank c := by
  simp only [isPadding, Bool.or_eq_true, beq_iff_eq] at h
  rcases h with rfl | rfl <;> decide

namespace Text

/-- Space before a line breaks it nowhere. -/
theorem unbroken_append {p t : Text} (hp : ∀ c ∈ p, isPadding c) (ht : '\n' ∉ t) :
    '\n' ∉ p ++ t := by
  rw [List.mem_append, not_or]
  exact ⟨fun hm => absurd (hp _ hm) (by decide), ht⟩

section Run

variable {p : Char → Bool} {t u : Text}

/-- A run of characters ends where the text goes on with another one. -/
theorem takeWhile_append_of_stop (ht : ∀ c ∈ t, p c) (hu : ∀ c ∈ u.head?, p c = false) :
    (t ++ u).takeWhile p = t := by
  rw [List.takeWhile_append_of_pos ht]
  cases u with
  | nil => simp
  | cons c u => simp [hu c rfl]

theorem dropWhile_append_of_stop (ht : ∀ c ∈ t, p c) (hu : ∀ c ∈ u.head?, p c = false) :
    (t ++ u).dropWhile p = u := by
  rw [List.dropWhile_append_of_pos ht]
  cases u with
  | nil => rfl
  | cons c u => simp [hu c rfl]

theorem takeWhile_eq_replicate (m : Char) (t : Text) :
    t.takeWhile (· == m) = List.replicate (t.takeWhile (· == m)).length m := by
  rw [List.eq_replicate_iff]
  refine ⟨rfl, fun c hc => ?_⟩
  simpa using List.mem_takeWhile_imp hc

end Run

theorem isAllBlank_iff {t : Text} : t.isAllBlank ↔ ∀ c ∈ t, isBlank c := List.all_eq_true

theorem isAllBlank_append (t u : Text) :
    isAllBlank (t ++ u) = (isAllBlank t && isAllBlank u) := List.all_append

theorem dropWhile_append_of_exists {p : Char → Bool} {t : Text} (h : ∃ c ∈ t, p c = false)
    (u : Text) : (t ++ u).dropWhile p = t.dropWhile p ++ u := by
  rw [List.dropWhile_append, if_neg]
  obtain ⟨c, hc, hp⟩ := h
  rw [List.isEmpty_iff, List.dropWhile_eq_nil_iff]
  intro ha
  rw [ha c hc] at hp
  contradiction

theorem exists_of_not_isAllBlank {t : Text} (h : t.isAllBlank = false) :
    ∃ c ∈ t, isBlank c = false := by
  rw [isAllBlank, List.all_eq_false] at h
  obtain ⟨c, hc, hb⟩ := h
  exact ⟨c, hc, by simpa using hb⟩

theorem trimStart_append_of_blank {p : Text} (h : ∀ c ∈ p, isBlank c) (t : Text) :
    trimStart (p ++ t) = trimStart t := List.dropWhile_append_of_pos h

theorem trimStart_append {t : Text} (h : t.isAllBlank = false) (u : Text) :
    trimStart (t ++ u) = trimStart t ++ u :=
  dropWhile_append_of_exists (exists_of_not_isAllBlank h) u

theorem trimStart_of_blank {t : Text} (h : ∀ c ∈ t, isBlank c) : trimStart t = [] :=
  List.dropWhile_eq_nil_iff.2 h

@[simp] theorem isAllBlank_trimStart (t : Text) : isAllBlank (trimStart t) = isAllBlank t := by
  have hb : isAllBlank (t.takeWhile isBlank) :=
    isAllBlank_iff.2 fun c hc => List.mem_takeWhile_imp hc
  conv_rhs => rw [← List.takeWhile_append_dropWhile (p := isBlank) (l := t)]
  rw [isAllBlank_append, hb, Bool.true_and, trimStart]

theorem exists_cons_of_not_isAllBlank {t : Text} (h : t.isAllBlank = false) :
    ∃ c r, t = c :: r := by
  cases t with
  | nil => contradiction
  | cons c r => exact ⟨c, r, rfl⟩

/-- White space added to the end of a text is trimmed with it. -/
theorem trimEnd_append_of_blank (t : Text) {u : Text} (h : ∀ c ∈ u, isBlank c) :
    trimEnd (t ++ u) = trimEnd t := by
  rw [trimEnd, List.reverse_append, List.dropWhile_append_of_pos, trimEnd]
  intro c hc
  exact h c (List.mem_reverse.1 hc)

theorem trimEnd_of_blank {t : Text} (h : ∀ c ∈ t, isBlank c) : trimEnd t = [] :=
  trimEnd_append_of_blank [] h

theorem exists_trimEnd_append (t : Text) : ∃ u, t = t.trimEnd ++ u ∧ ∀ c ∈ u, isBlank c := by
  refine ⟨(t.reverse.takeWhile isBlank).reverse, ?_, ?_⟩
  · rw [trimEnd, ← List.reverse_append, List.takeWhile_append_dropWhile, List.reverse_reverse]
  · intro c hc
    exact List.mem_takeWhile_imp (List.mem_reverse.1 hc)

/-- Trimming the end stops at a character that is not white space. -/
theorem trimEnd_append_cons (t : Text) {c : Char} (h : isBlank c = false) (u : Text) :
    trimEnd (t ++ c :: u) = t ++ c :: trimEnd u := by
  have hr : (t ++ c :: u).reverse = u.reverse ++ [c] ++ t.reverse := by simp
  have hc : (u.reverse ++ [c]).dropWhile isBlank = u.reverse.dropWhile isBlank ++ [c] := by
    rw [List.dropWhile_append]
    split_ifs with hu
    · rw [List.isEmpty_iff.1 hu, List.dropWhile_cons_of_neg (by simp [h]), List.nil_append]
    · rfl
  rw [trimEnd, hr, dropWhile_append_of_exists ⟨c, by simp, h⟩, hc, trimEnd]
  simp

theorem trimStart_eq_self {t : Text} (h : ∀ c ∈ t.head?, isBlank c = false) : trimStart t = t :=
  dropWhile_append_of_stop (t := []) (by simp) h

theorem trimEnd_eq_self {t : Text} (h : ∀ c ∈ t.getLast?, isBlank c = false) : trimEnd t = t := by
  have hr := trimStart_eq_self (t := t.reverse) (by rwa [List.head?_reverse])
  rw [trimEnd, ← trimStart, hr, List.reverse_reverse]

theorem trim_eq_self {t : Text} (hf : ∀ c ∈ t.head?, isBlank c = false)
    (hl : ∀ c ∈ t.getLast?, isBlank c = false) : trim t = t := by
  rw [trim, trimStart_eq_self hf, trimEnd_eq_self hl]

theorem not_isBlank_of_head?_trimStart {t : Text} {c : Char} (h : c ∈ t.trimStart.head?) :
    isBlank c = false := by
  have hd := List.head?_dropWhile_not isBlank t
  rw [trimStart, Option.mem_def] at h
  rwa [h] at hd

theorem not_isBlank_of_getLast?_trim {t : Text} {c : Char} (h : c ∈ t.trim.getLast?) :
    isBlank c = false := by
  rw [trim, trimEnd, List.getLast?_reverse] at h
  exact not_isBlank_of_head?_trimStart h

theorem not_isBlank_of_head?_trim {t : Text} {c : Char} (h : c ∈ t.trim.head?) :
    isBlank c = false := by
  obtain ⟨u, hu, -⟩ := t.trimStart.exists_trimEnd_append
  apply not_isBlank_of_head?_trimStart (t := t)
  rw [hu]
  cases ht : t.trimStart.trimEnd with
  | nil =>
    rw [trim, ht] at h
    contradiction
  | cons d r =>
    rw [trim, ht] at h
    exact h

/-- Trimming takes spaces and tabs off, and nothing else. -/
theorem exists_trimPadding_append (t : Text) :
    ∃ u, t = t.trimPadding ++ u ∧ ∀ c ∈ u, isPadding c := by
  refine ⟨(t.reverse.takeWhile isPadding).reverse, ?_, ?_⟩
  · rw [trimPadding, ← List.reverse_append, List.takeWhile_append_dropWhile, List.reverse_reverse]
  · intro c hc
    exact List.mem_takeWhile_imp (List.mem_reverse.1 hc)

theorem trimPadding_append_of_padding (t : Text) {u : Text} (h : ∀ c ∈ u, isPadding c) :
    trimPadding (t ++ u) = trimPadding t := by
  rw [trimPadding, List.reverse_append, List.dropWhile_append_of_pos, trimPadding]
  intro c hc
  exact h c (List.mem_reverse.1 hc)

@[simp] theorem trimPadding_trimPadding (t : Text) : t.trimPadding.trimPadding = t.trimPadding := by
  obtain ⟨u, hu, hp⟩ := t.exists_trimPadding_append
  conv_rhs => rw [hu, trimPadding_append_of_padding _ hp]

theorem trimPadding_of_padding {t : Text} (h : ∀ c ∈ t, isPadding c) : trimPadding t = [] :=
  trimPadding_append_of_padding [] h

/-- A text that does not end in a space or a tab is not trimmed. -/
theorem trimPadding_append_singleton (t : Text) {c : Char} (h : isPadding c = false) :
    trimPadding (t ++ [c]) = t ++ [c] := by
  simp [trimPadding, h]

theorem not_isPadding_of_trimPadding {t u : Text} {c : Char} (h : t.trimPadding = u ++ [c]) :
    isPadding c = false := by
  have hr : t.reverse.dropWhile isPadding = c :: u.reverse := by
    rw [← List.reverse_reverse (t.reverse.dropWhile isPadding)]
    change List.reverse t.trimPadding = _
    rw [h]
    simp
  have hd := List.head?_dropWhile_not isPadding t.reverse
  rw [hr] at hd
  simpa using hd

theorem mem_of_mem_trimPadding {t : Text} {c : Char} (h : c ∈ t.trimPadding) : c ∈ t := by
  obtain ⟨u, hu, -⟩ := t.exists_trimPadding_append
  rw [hu]
  exact List.mem_append_left u h

section Indent

variable {indent : Text}

@[simp] theorem stripIndent_append (indent t : Text) : stripIndent indent (indent ++ t) = t := by
  rw [stripIndent, List.isPrefixOf?_eq_some_iff_append_eq.2 rfl]

theorem stripIndent_nil (indent : Text) : stripIndent indent [] = [] := by
  cases indent <;> rfl

theorem exists_dropPadding (n : Nat) (t : Text) :
    ∃ p, t = p ++ dropPadding n t ∧ ∀ c ∈ p, isPadding c := by
  induction t generalizing n with
  | nil => cases n <;> exact ⟨[], rfl, by simp⟩
  | cons c t ih =>
    cases n with
    | zero => exact ⟨[], rfl, by simp⟩
    | succ n =>
      by_cases hc : isPadding c
      · obtain ⟨p, hp, ha⟩ := ih n
        refine ⟨c :: p, ?_, List.forall_mem_cons.2 ⟨hc, ha⟩⟩
        rw [dropPadding, if_pos hc, List.cons_append, ← hp]
      · refine ⟨[], ?_, by simp⟩
        rw [dropPadding, if_neg hc, List.nil_append]

/-- What is taken off a line with an indentation is space. -/
theorem exists_stripIndent (hi : ∀ c ∈ indent, isPadding c) (t : Text) :
    ∃ p, t = p ++ stripIndent indent t ∧ ∀ c ∈ p, isPadding c := by
  rw [stripIndent]
  cases hp : indent.isPrefixOf? t with
  | none => exact exists_dropPadding indent.length t
  | some rest => exact ⟨indent, (List.isPrefixOf?_eq_some_iff_append_eq.1 hp).symm, hi⟩

theorem mem_of_mem_stripIndent (hi : ∀ c ∈ indent, isPadding c) {t : Text} {c : Char}
    (h : c ∈ stripIndent indent t) : c ∈ t := by
  obtain ⟨p, hp, -⟩ := exists_stripIndent hi t
  rw [hp]
  exact List.mem_append_right p h

theorem isAllBlank_stripIndent (hi : ∀ c ∈ indent, isPadding c) (t : Text) :
    isAllBlank (stripIndent indent t) = isAllBlank t := by
  obtain ⟨p, hp, ha⟩ := exists_stripIndent hi t
  conv_rhs => rw [hp, isAllBlank_append]
  rw [isAllBlank_iff.2 fun c hc => isBlank_of_isPadding (ha c hc), Bool.true_and]

theorem dropPadding_append {t : Text} (h : ∃ c ∈ t, isPadding c = false) (n : Nat) (u : Text) :
    dropPadding n (t ++ u) = dropPadding n t ++ u := by
  induction t generalizing n with
  | nil => simp at h
  | cons c t ih =>
    cases n with
    | zero => rfl
    | succ n =>
      rw [List.cons_append, dropPadding, dropPadding]
      by_cases hc : isPadding c
      · obtain ⟨d, hd, hp⟩ := h
        rcases List.mem_cons.1 hd with rfl | hd
        · rw [hc] at hp
          contradiction
        · rw [if_pos hc, if_pos hc, ih ⟨d, hd, hp⟩]
      · rw [if_neg hc, if_neg hc, List.cons_append]

theorem isPrefixOf?_append_left (pad t u : Text) :
    (pad ++ t).isPrefixOf? (pad ++ u) = t.isPrefixOf? u := by
  induction pad with
  | nil => rfl
  | cons c pad ih => simpa [List.isPrefixOf?] using ih

theorem dropPadding_append_of_padding {pad : Text} (h : ∀ c ∈ pad, isPadding c) (n : Nat)
    (t : Text) : dropPadding (pad.length + n) (pad ++ t) = dropPadding n t := by
  induction pad with
  | nil => rw [List.length_nil, Nat.zero_add, List.nil_append]
  | cons c pad ih =>
    obtain ⟨hc, hp⟩ := List.forall_mem_cons.1 h
    rw [List.length_cons, Nat.add_right_comm, List.cons_append, dropPadding, if_pos hc, ih hp]

theorem stripIndent_eq_dropPadding {t : Text} (h : ¬ indent <+: t) :
    stripIndent indent t = dropPadding indent.length t := by
  rw [stripIndent]
  cases hp : indent.isPrefixOf? t with
  | none => rfl
  | some rest => exact absurd ⟨rest, List.isPrefixOf?_eq_some_iff_append_eq.1 hp⟩ h

/-- Taking an indentation off a line leaves alone what follows a character that is no space. -/
theorem stripIndent_append_right (hi : ∀ c ∈ indent, isPadding c) {t : Text}
    (h : ∃ c ∈ t, isPadding c = false) (u : Text) :
    stripIndent indent (t ++ u) = stripIndent indent t ++ u := by
  by_cases hp : indent <+: t
  · obtain ⟨r, rfl⟩ := hp
    rw [List.append_assoc, stripIndent_append, stripIndent_append]
  · have hpu : ¬ indent <+: t ++ u := by
      intro hpu
      rcases Nat.le_total indent.length t.length with hl | hl
      · exact hp (List.prefix_of_prefix_length_le hpu (List.prefix_append t u) hl)
      · obtain ⟨c, hc, hf⟩ := h
        have ht := List.prefix_of_prefix_length_le (List.prefix_append t u) hpu hl
        rw [hi c (ht.subset hc)] at hf
        contradiction
    rw [stripIndent_eq_dropPadding hp, stripIndent_eq_dropPadding hpu, dropPadding_append h]

/-- It does not matter whether the space at the end or the indentation is taken off first. -/
theorem stripIndent_trimPadding (hi : ∀ c ∈ indent, isPadding c) (t : Text) :
    stripIndent indent t.trimPadding = (stripIndent indent t).trimPadding := by
  obtain ⟨u, hu, hp⟩ := t.exists_trimPadding_append
  rcases List.eq_nil_or_concat t.trimPadding with hn | ⟨d, c, hc⟩
  · have ht : ∀ c ∈ stripIndent indent t, isPadding c := by
      intro c hc
      rw [hn, List.nil_append] at hu
      exact hp c (hu ▸ mem_of_mem_stripIndent hi hc)
    rw [hn, trimPadding_of_padding ht, stripIndent_nil]
  · rw [List.concat_eq_append] at hc
    have hf := not_isPadding_of_trimPadding hc
    conv_rhs => rw [hu, stripIndent_append_right hi ⟨c, by rw [hc]; simp, hf⟩,
      trimPadding_append_of_padding _ hp]
    obtain ⟨p, hs, hpad⟩ := exists_stripIndent hi t.trimPadding
    rcases List.eq_nil_or_concat (stripIndent indent t.trimPadding) with hn | ⟨q, x, hx⟩
    · rw [hn]
      rfl
    · rw [List.concat_eq_append] at hx
      obtain rfl : c = x := by
        have he : d ++ [c] = (p ++ q) ++ [x] :=
          (hc.symm.trans hs).trans (by rw [hx, List.append_assoc])
        exact List.singleton_inj.1 (List.append_inj' he rfl).2
      rw [hx, trimPadding_append_singleton q hf]

end Indent

end Text

end FencedCode
