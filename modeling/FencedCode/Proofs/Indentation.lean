import FencedCode.Proofs.Space
import FencedCode.Text.Utf8

/-! The removal of an indentation as one rule. A line loses as many leading spaces and tabs as it
has, up to the width of the indentation, whether it starts with the indentation itself or not, and
whether characters are counted or bytes. -/
namespace FencedCode.Text

/-- The number of spaces and tabs that a text starts with. -/
def padding (t : Text) : Nat := (t.takeWhile isPadding).length

/-- The characters of a text with the offsets of their first bytes, which count from `i`. -/
def offsets (i : Nat) : Text → List (Nat × Char)
  | [] => []
  | c :: r => (i, c) :: offsets (i + c.utf8Size) r

/-- The offset of the byte after the last one of the leading spaces and tabs of a text, of which at
most `n` count. -/
def paddingEnd (n : Nat) (t : Text) : Nat :=
  ((((offsets 0 t).take n).takeWhile (isPadding ·.2)).getLast?.map
    fun e => e.1 + e.2.utf8Size).getD 0

theorem padding_cons_of_pos {c : Char} (h : isPadding c) (t : Text) :
    padding (c :: t) = padding t + 1 := by
  rw [padding, List.takeWhile_cons_of_pos h, List.length_cons, padding]

theorem padding_cons_of_neg {c : Char} (h : ¬ isPadding c) (t : Text) : padding (c :: t) = 0 := by
  rw [padding, List.takeWhile_cons_of_neg h, List.length_nil]

theorem utf8Size_of_isPadding {c : Char} (h : isPadding c) : c.utf8Size = 1 := by
  rcases isPadding_iff.1 h with rfl | rfl <;> rfl

theorem utf8_append (t u : Text) : utf8 (t ++ u) = utf8 t ++ utf8 u := List.flatMap_append

/-- Space takes as many bytes as it has characters. -/
theorem length_utf8_of_padding {t : Text} (h : ∀ c ∈ t, isPadding c) :
    (utf8 t).length = t.length := by
  induction t with
  | nil => rfl
  | cons c t ih =>
    obtain ⟨hc, ht⟩ := List.forall_mem_cons.1 h
    have hl := ih ht
    rw [utf8] at hl
    rw [utf8, List.flatMap_cons, List.length_append, String.length_utf8EncodeChar,
      utf8Size_of_isPadding hc, hl, List.length_cons, Nat.add_comm]

/-- The rule, for a width of `n`. -/
theorem dropPadding_eq_drop (n : Nat) (t : Text) : dropPadding n t = t.drop (min n t.padding) := by
  induction t generalizing n with
  | nil => cases n <;> simp [dropPadding]
  | cons c t ih =>
    cases n with
    | zero => simp [dropPadding]
    | succ n =>
      rw [dropPadding]
      by_cases hc : isPadding c
      · rw [if_pos hc, ih, padding_cons_of_pos hc, Nat.add_min_add_right, List.drop_succ_cons]
      · rw [if_neg hc, padding_cons_of_neg hc, Nat.min_zero, List.drop_zero]

theorem isPadding_of_mem_take {n : Nat} {t : Text} (h : n ≤ t.padding) :
    ∀ c ∈ t.take n, isPadding c := by
  intro c hc
  have ht : t.take n = (t.takeWhile isPadding).take n := by
    conv_lhs => rw [← List.takeWhile_append_dropWhile (p := isPadding) (l := t)]
    exact List.take_append_of_le_length h
  rw [ht] at hc
  exact List.mem_takeWhile_imp (List.mem_of_mem_take hc)

/-- A text that starts with an indentation starts with at least as much space. -/
theorem length_le_padding {indent t : Text} (hi : ∀ c ∈ indent, isPadding c) (h : indent <+: t) :
    indent.length ≤ t.padding := by
  obtain ⟨r, rfl⟩ := h
  rw [padding, List.takeWhile_append_of_pos hi, List.length_append]
  exact Nat.le_add_right ..

theorem stripIndent_eq_drop {indent : Text} (hi : ∀ c ∈ indent, isPadding c) (t : Text) :
    stripIndent indent t = t.drop (min indent.length t.padding) := by
  by_cases hp : indent <+: t
  · rw [Nat.min_eq_left (length_le_padding hi hp)]
    obtain ⟨r, rfl⟩ := hp
    rw [stripIndent_append, List.drop_left]
  · rw [stripIndent_eq_dropPadding hp, dropPadding_eq_drop]

/-- The search for the last space or tab, along the offsets from `i` on. A single one moves the end
by one byte. -/
theorem getLast?_offsets (i n : Nat) (t : Text) :
    ((((offsets i t).take n).takeWhile (isPadding ·.2)).getLast?.map
      fun e => e.1 + e.2.utf8Size).getD i = i + min n t.padding := by
  induction t generalizing i n with
  | nil => simp [offsets, padding]
  | cons c t ih =>
    cases n with
    | zero => simp
    | succ n =>
      by_cases hc : isPadding c
      · have ht := ih (i + 1) n
        rw [offsets, List.take_succ_cons, List.takeWhile_cons_of_pos (by exact hc),
          List.getLast?_cons, utf8Size_of_isPadding hc, padding_cons_of_pos hc,
          Nat.add_min_add_right, Option.map_some, Option.getD_some]
        generalize (((offsets (i + 1) t).take n).takeWhile (isPadding ·.2)).getLast? = last at ht ⊢
        cases last with
        | none =>
          have hs := utf8Size_of_isPadding hc
          simp only [Option.map_none, Option.getD_none] at ht ⊢
          omega
        | some e =>
          simp only [Option.map_some, Option.getD_some] at ht ⊢
          omega
      · rw [offsets, List.take_succ_cons, List.takeWhile_cons_of_neg (by exact hc),
          padding_cons_of_neg hc]
        rfl

theorem paddingEnd_eq (n : Nat) (t : Text) : paddingEnd n t = min n t.padding := by
  rw [paddingEnd, getLast?_offsets, Nat.zero_add]

/-- To take an indentation off a line is to drop the leading spaces and tabs of the line, as many as
the indentation has characters. A line that starts with the indentation loses it by the same rule.
In bytes it is a cut at the offset after the last one of them. -/
theorem stripIndent_rule (indent line : Text) (h : ∀ c ∈ indent, c = ' ' ∨ c = '\t') :
    (∃ dropped, line = dropped ++ stripIndent indent line ∧
      dropped.length = min indent.length line.padding ∧ ∀ c ∈ dropped, c = ' ' ∨ c = '\t') ∧
    (∀ rest, indent.isPrefixOf? line = some rest → rest = dropPadding indent.length line) ∧
    (stripIndent indent line).utf8 = line.utf8.drop (paddingEnd indent.length line) ∧
    ∀ t, stripIndent indent (indent ++ t) = t := by
  have hi : ∀ c ∈ indent, isPadding c := fun c hc => isPadding_iff.2 (h c hc)
  have hd := stripIndent_eq_drop hi line
  have hn : min indent.length line.padding ≤ line.padding := Nat.min_le_right ..
  have hpad := isPadding_of_mem_take hn
  have hlen : (line.take (min indent.length line.padding)).length =
      min indent.length line.padding := by
    have hl : line.padding ≤ line.length := (List.takeWhile_sublist _).length_le
    rw [List.length_take]
    omega
  refine ⟨⟨line.take (min indent.length line.padding), ?_, hlen, ?_⟩, ?_, ?_, stripIndent_append _⟩
  · rw [hd, List.take_append_drop]
  · intro c hc
    exact isPadding_iff.1 (hpad c hc)
  · intro rest hr
    rw [dropPadding_eq_drop, ← hd, stripIndent, hr]
  · conv_rhs => rw [← List.take_append_drop (min indent.length line.padding) line, utf8_append,
      List.take_append_drop]
    rw [paddingEnd_eq, hd, List.drop_left' ((length_utf8_of_padding hpad).trans hlen)]

/-- A tab and a space go for two spaces, and the character of two bytes is not cut. -/
theorem stripIndent_rule_tabForSpace :
    (∀ c ∈ [' ', ' '], c = ' ' ∨ c = '\t') ∧
      (∃ dropped, ['\t', ' ', ' ', 'é'] = dropped ++ [' ', 'é'] ∧ dropped.length = 2 ∧
        ∀ c ∈ dropped, c = ' ' ∨ c = '\t') ∧
      utf8 [' ', 'é'] = (utf8 ['\t', ' ', ' ', 'é']).drop 2 := by
  have hi : ∀ c ∈ [' ', ' '], c = ' ' ∨ c = '\t' := by simp
  obtain ⟨hd, -, hb, -⟩ := stripIndent_rule [' ', ' '] ['\t', ' ', ' ', 'é'] hi
  exact ⟨hi, hd, hb⟩

end FencedCode.Text
