import FencedCode.Proofs.Reports
import FencedCode.Proofs.TomlStrings
import FencedCode.Toml.Document

/-! Values as they are written. Texts, integers of 64 bits, booleans and arrays of them are read
back in front of everything that may follow a value. -/
namespace FencedCode.Toml

/-- A character that ends a value on a line or in an array. -/
def IsEnd (c : Char) : Prop := c = ',' ∨ c = ']' ∨ c = '\n'

/-- The reader takes exactly the text for the value, and leaves what follows. -/
def Reads {α : Type} (read : Reader α) (w : Text) (a : α) : Prop :=
  ∀ {c : Char}, IsEnd c → ∀ r, read (w ++ c :: r) = .ok (a, c :: r)

section Numbers

variable {c d : Char} {t : Text}

theorem IsEnd.not_isDigit (h : IsEnd c) : c.isDigit = false := by
  rcases h with rfl | rfl | rfl <;> rfl

/-- Digits up to the end of a value go on with a digit or end. -/
theorem head_digits {ds : Text} (hd : ∀ d ∈ ds, d.isDigit) (hc : IsEnd c) (r : Text) :
    ∀ e ∈ (ds ++ c :: r).head?, e.isDigit ∨ IsEnd e := by
  cases ds with
  | nil => simpa using Or.inr hc
  | cons d ds => simpa using Or.inl (hd d List.mem_cons_self)

theorem skip?_eq_none (hd : d.isDigit = false) (he : ¬ IsEnd d)
    (ht : ∀ e ∈ t.head?, e.isDigit ∨ IsEnd e) : skip? d t = none := by
  cases t with
  | nil => rfl
  | cons e t =>
    rw [skip?, if_neg]
    rintro rfl
    rcases ht d rfl with h | h
    · rw [hd] at h
      contradiction
    · exact he h

/-- Exactly so many digits are followed by more of them, or by the end. -/
theorem head_fixedDigits? {ds r u : Text} {n v : Nat} (hd : ∀ d ∈ ds, d.isDigit) (hc : IsEnd c)
    (h : fixedDigits? n (ds ++ c :: r) = some (v, u)) : ∀ e ∈ u.head?, e.isDigit ∨ IsEnd e := by
  simp only [fixedDigits?] at h
  split_ifs at h with hn
  obtain ⟨m, -, he⟩ := Option.map_eq_some_iff.1 h
  obtain rfl : (ds ++ c :: r).drop n = u := (Prod.mk.inj he).2
  have hl : n ≤ ds.length := by
    by_contra hl
    have hm : c ∈ (ds ++ c :: r).take n := by
      obtain ⟨k, rfl⟩ := Nat.exists_eq_add_of_lt (Nat.lt_of_not_le hl)
      rw [Nat.add_assoc, List.take_length_add_append]
      simp
    have hf := hc.not_isDigit
    rw [List.all_eq_true.1 hn.2 c hm] at hf
    contradiction
  rw [List.drop_append_of_le_length hl]
  exact head_digits (fun d hm => hd d (List.mem_of_mem_drop hm)) hc r

theorem afterTime?_digits {ds : Text} (hd : ∀ d ∈ ds, d.isDigit) (hc : IsEnd c) (r : Text) :
    afterTime? (ds ++ c :: r) = none := by
  have date : date? (ds ++ c :: r) = none := by
    cases h : fixedDigits? 4 (ds ++ c :: r) with
    | none => simp [date?, h]
    | some p =>
      have hs := skip?_eq_none (by decide : '-'.isDigit = false) (by simp [IsEnd])
        (head_fixedDigits? hd hc h)
      simp [date?, h, hs]
  have clock : clock? (ds ++ c :: r) = none := by
    cases h : fixedDigits? 2 (ds ++ c :: r) with
    | none => simp [clock?, h]
    | some p =>
      have hs := skip?_eq_none (by decide : ':'.isDigit = false) (by simp [IsEnd])
        (head_fixedDigits? hd hc h)
      simp [clock?, h, hs]
  simp [afterTime?, date, clock]

theorem afterTime?_of_not_isDigit (hc : c.isDigit = false) : afterTime? (c :: t) = none := by
  have hf : ∀ n, fixedDigits? (n + 1) (c :: t) = none := by
    intro n
    simp [fixedDigits?, hc]
  simp [afterTime?, date?, clock?, hf]

theorem ne_of_isDigit (h : d.isDigit) (hc : c.isDigit = false) : d ≠ c := by
  rintro rfl
  rw [hc] at h
  contradiction

theorem digitRun?_digits {ds : Text} (hd : ∀ d ∈ ds, d.isDigit) (hn : ds ≠ []) (hc : IsEnd c)
    (r : Text) : digitRun? Char.isDigit (ds ++ c :: r) = some (ds, c :: r) := by
  have hu : ∀ d ∈ ds, d ≠ '_' := fun d hm => ne_of_isDigit (hd d hm) (by decide)
  have hp : ∀ d ∈ ds, (d.isDigit || d == '_') = true := fun d hm => by simp [hd d hm]
  have hs : ∀ e ∈ (c :: r).head?, (e.isDigit || e == '_') = false := by
    rcases hc with rfl | rfl | rfl <;> simp
  have hb : digitRun?.doubled ds = false := by
    clear hn hp hd
    induction ds with
    | nil => rfl
    | cons d ds ih =>
      obtain ⟨hd, hds⟩ := List.forall_mem_cons.1 hu
      rw [digitRun?.doubled]
      · exact ih hds
      · rintro _ rfl
        contradiction
  have hf : ds.filter (· != '_') = ds := by simpa using hu
  have hh : ds.head? ≠ some '_' := fun h => hu _ (List.mem_of_head? h) rfl
  have hl : ds.getLast? ≠ some '_' := fun h => hu _ (List.mem_of_getLast? h) rfl
  simp only [digitRun?]
  rw [Text.takeWhile_append_of_stop hp hs, Text.dropWhile_append_of_stop hp hs, hb, hf]
  simp [hn, hh, hl]

theorem head_toDigits {n : Nat} (h : 0 < n) : (Nat.toDigits 10 n).head? ≠ some '0' := by
  induction n using Nat.strong_induction_on with
  | _ n ih =>
    by_cases hn : n < 10
    · have small : ∀ n < 10, 0 < n → n.digitChar ≠ '0' := by decide
      rw [Nat.toDigits_of_lt_base hn]
      simpa using small n hn h
    · rw [Nat.toDigits_of_base_le (by decide) (by omega), List.head?_append_of_ne_nil]
      · exact ih (n / 10) (by omega) (by omega)
      · exact Nat.toDigits_ne_nil

/-- The digits of a number have no zero before them. -/
theorem repr_not_padded (n : Nat) :
    ¬ (n.repr.toList.head? = some '0' ∧ 1 < n.repr.toList.length) := by
  rw [Nat.toList_repr]
  rintro ⟨hh, hl⟩
  rcases Nat.eq_zero_or_pos n with rfl | hn
  · contradiction
  · exact head_toDigits hn hh

theorem fraction_eq (hc : IsEnd c) (r : Text) : fraction (c :: r) = .ok ([], c :: r) := by
  rcases hc with rfl | rfl | rfl <;> rfl

theorem exponent_eq (hc : IsEnd c) (r : Text) : exponent (c :: r) = .ok ([], c :: r) := by
  rcases hc with rfl | rfl | rfl <;> rfl

theorem decimalNumber_repr (negative : Bool) (n : Nat) (hc : IsEnd c) (r : Text) :
    decimalNumber negative (n.repr.toList ++ c :: r) =
      bounded (if negative then -(n : Int) else n) (c :: r) := by
  have hd := digitRun?_digits (fun d => Text.isDigit_of_mem_repr) (Text.toList_repr_ne_nil n) hc r
  rw [decimalNumber, hd]
  simp only [if_neg (repr_not_padded n), fraction_eq hc, exponent_eq hc, Text.digits?_repr, bind,
    Except.bind, List.isEmpty_nil, Bool.and_self, if_true]

theorem unsignedNumber_of_isDigit (hd : d.isDigit) (negative : Bool) (t : Text) :
    unsignedNumber negative (d :: t) = decimalNumber negative (d :: t) := by
  have hi := ne_of_isDigit hd (by decide : 'i'.isDigit = false)
  have hn := ne_of_isDigit hd (by decide : 'n'.isDigit = false)
  simp [unsignedNumber, hi, hn]

theorem number_of_isDigit (hd : d.isDigit) (ht : ∀ e ∈ t.head?, e.isDigit ∨ IsEnd e) :
    number (d :: t) = decimalNumber false (d :: t) := by
  have base : ∀ {b : Char}, b.isDigit = false → ¬ IsEnd b →
      ∀ r, d :: t = '0' :: b :: r → False := by
    intro b hb he r h
    cases h
    rcases ht b rfl with h | h
    · rw [hb] at h
      contradiction
    · exact he h
  rw [number]
  · exact unsignedNumber_of_isDigit hd false t
  · exact base (by decide) (by simp [IsEnd])
  · exact base (by decide) (by simp [IsEnd])
  · exact base (by decide) (by simp [IsEnd])
  · rintro r ⟨⟩
    contradiction
  · rintro r ⟨⟩
    contradiction

theorem value_of_isDigit (hd : d.isDigit ∨ d = '-') (depth : Nat) (t : Text) :
    value depth (d :: t) = timeOrNumber (d :: t) := by
  have hne : ∀ {c : Char}, c.isDigit = false → c ≠ '-' → d ≠ c := by
    rintro c hc hm rfl
    rcases hd with h | h
    · rw [hc] at h
      contradiction
    · exact hm h
  have hl : literal (d :: t) = timeOrNumber (d :: t) := by
    rw [literal]
    · rintro r ⟨⟩
      exact hne (by decide) (by decide) rfl
    · rintro r ⟨⟩
      exact hne (by decide) (by decide) rfl
  have hq : d ≠ '"' ∧ d ≠ '\'' := ⟨hne (by decide) (by decide), hne (by decide) (by decide)⟩
  have hb : d ≠ '[' ∧ d ≠ '\x7b' := ⟨hne (by decide) (by decide), hne (by decide) (by decide)⟩
  rw [← hl]
  cases depth <;> simp [value, hq, hb]

theorem toList_toString_negSucc (m : Nat) :
    (toString (Int.negSucc m)).toList = '-' :: (m + 1).repr.toList := by
  change ("-" ++ (m + 1).repr).toList = _
  rw [String.toList_append]
  rfl

theorem reads_integer {n : Int} (hn : fitsSignedWord n) (depth : Nat) :
    Reads (value depth) (toString n).toList (.integer n) := by
  intro c hc r
  have hb : ∀ t, bounded n t = .ok (.integer n, t) := fun t => if_pos hn
  cases n with
  | ofNat m =>
    change value depth (m.repr.toList ++ c :: r) = _
    have hd : ∀ d ∈ m.repr.toList, d.isDigit := fun d => Text.isDigit_of_mem_repr
    have ht := afterTime?_digits hd hc r
    have hm := decimalNumber_repr false m hc r
    cases h : m.repr.toList with
    | nil => exact absurd h (Text.toList_repr_ne_nil m)
    | cons d ds =>
      rw [h] at hd ht hm
      obtain ⟨hd, hds⟩ := List.forall_mem_cons.1 hd
      rw [List.cons_append] at ht hm ⊢
      rw [value_of_isDigit (.inl hd), timeOrNumber, ht]
      exact (number_of_isDigit hd (head_digits hds hc r)).trans (hm.trans (hb _))
  | negSucc m =>
    have hd : ∀ d ∈ (m + 1).repr.toList, d.isDigit := fun d => Text.isDigit_of_mem_repr
    have hm := decimalNumber_repr true (m + 1) hc r
    rw [toList_toString_negSucc, List.cons_append, value_of_isDigit (.inr rfl), timeOrNumber,
      afterTime?_of_not_isDigit (by decide)]
    change unsignedNumber true _ = _
    cases h : (m + 1).repr.toList with
    | nil => exact absurd h (Text.toList_repr_ne_nil (m + 1))
    | cons d ds =>
      rw [h] at hd hm
      exact (unsignedNumber_of_isDigit (hd d List.mem_cons_self) true _).trans (hm.trans (hb _))

end Numbers

/-- A value starts with a character that is no part of a gap and closes no array. -/
def Starts (w : Text) : Prop :=
  ∃ c r, w = c :: r ∧ isBlankChar c = false ∧ c ≠ '\n' ∧ c ≠ '\r' ∧ c ≠ '#' ∧ c ≠ ']'

namespace Starts

variable {w : Text}

theorem append (h : Starts w) (r : Text) : Starts (w ++ r) := by
  obtain ⟨c, u, rfl, hc⟩ := h
  exact ⟨c, u ++ r, rfl, hc⟩

theorem skipGap (h : Starts w) : skipGap false w = .ok w := by
  obtain ⟨c, r, rfl, hb, hn, hr, hs, -⟩ := h
  simp [Toml.skipGap, hb, hn, hr, hs]

theorem skipBlanks (h : Starts w) : skipBlanks w = w := by
  obtain ⟨c, r, rfl, hb, -⟩ := h
  simp [Toml.skipBlanks, hb]

end Starts

theorem starts_of_isDigit {d : Char} (h : d.isDigit) (w : Text) : Starts (d :: w) := by
  have hb : isBlankChar d = false := by
    have hs := ne_of_isDigit h (by decide : ' '.isDigit = false)
    have ht := ne_of_isDigit h (by decide : '\t'.isDigit = false)
    simp [isBlankChar, hs, ht]
  exact ⟨d, w, rfl, hb, ne_of_isDigit h (by decide), ne_of_isDigit h (by decide),
    ne_of_isDigit h (by decide), ne_of_isDigit h (by decide)⟩

/-- A value is written as a text that starts it and is read back. -/
def Written (depth : Nat) (w : Text) (v : Value) : Prop := Starts w ∧ Reads (value depth) w v

theorem written_integer {n : Int} (hn : fitsSignedWord n) (depth : Nat) :
    Written depth (toString n).toList (.integer n) := by
  refine ⟨?_, reads_integer hn depth⟩
  cases n with
  | ofNat m =>
    change Starts m.repr.toList
    cases h : m.repr.toList with
    | nil => exact absurd h (Text.toList_repr_ne_nil m)
    | cons d ds =>
      have hd : d ∈ m.repr.toList := by
        rw [h]
        exact List.mem_cons_self
      exact starts_of_isDigit (Text.isDigit_of_mem_repr hd) ds
  | negSucc m =>
    rw [toList_toString_negSucc]
    exact ⟨'-', _, rfl, by decide⟩

theorem written_boolean (b : Bool) (depth : Nat) :
    Written depth (if b then "true" else "false").toList (.boolean b) := by
  constructor
  · cases b
    · exact ⟨'f', _, rfl, by decide⟩
    · exact ⟨'t', _, rfl, by decide⟩
  · intro c _ r
    cases b <;> cases depth <;> rfl

theorem written_text (t : Text) (depth : Nat) : Written depth (writeString t) (.text t) := by
  obtain ⟨quote, w, hq, hw⟩ := exists_quote_writeString t
  constructor
  · refine ⟨quote, w, hw, ?_⟩
    rcases hq with rfl | rfl <;> decide
  · intro c hc r
    have read : string (writeString t ++ c :: r) = .ok (t, c :: r) := by
      apply string_writeString
      · rcases hc with rfl | rfl | rfl <;> simp
      · rcases hc with rfl | rfl | rfl <;> simp
    rw [hw, List.cons_append] at read ⊢
    rcases hq with rfl | rfl <;> cases depth <;> rw [value, read] <;> rfl

theorem starts_intercalate {depth : Nat} {u : Text} {us : List Text} {vs : List Value}
    (h : List.Forall₂ (Written depth) (u :: us) vs) (r : Text) :
    Starts (List.intercalate [',', ' '] (u :: us) ++ r) := by
  cases h with
  | cons hu _ =>
    cases us with
    | nil =>
      rw [List.intercalate_singleton]
      exact hu.1.append r
    | cons _ _ =>
      rw [List.intercalate_cons_cons, List.append_assoc, List.append_assoc]
      exact hu.1.append _

/-- The items of an array are read one after the other up to its closing bracket. -/
theorem arrayItems_written {depth : Nat} {ws : List Text} {vs : List Value}
    (h : List.Forall₂ (Written depth) ws vs) (hn : ws ≠ []) (rest : Text) :
    arrayItems (value depth) (List.intercalate [',', ' '] ws ++ ']' :: rest) = .ok (vs, rest) := by
  induction h with
  | nil => contradiction
  | @cons w v ws vs hw hs ih =>
    cases ws with
    | nil =>
      cases hs
      have read := hw.2 (.inr (.inl rfl)) rest
      rw [List.intercalate_singleton, arrayItems, read]
      simp [skipGap, isBlankChar]
    | cons u us =>
      have hi := ih (by simp)
      have hx := starts_intercalate hs (']' :: rest)
      rw [List.intercalate_cons_cons, List.append_assoc, List.append_assoc]
      generalize List.intercalate [',', ' '] (u :: us) ++ ']' :: rest = x at hi hx
      have read := hw.2 (.inl rfl) (' ' :: x)
      have gap := hx.skipGap
      obtain ⟨c, r, rfl, -, -, -, -, hc⟩ := hx
      have hl : r.length + 1 < w.length + (r.length + 1 + 1 + 1) := by omega
      have comma : skipGap false (',' :: ' ' :: c :: r) = .ok (',' :: ' ' :: c :: r) := by
        simp [skipGap, isBlankChar]
      have blank : skipGap false (' ' :: c :: r) = .ok (c :: r) := by
        rw [← gap]
        simp [skipGap, isBlankChar]
      change arrayItems (value depth) (w ++ ',' :: ' ' :: c :: r) = _
      rw [arrayItems, read]
      simp only [comma, blank]
      simp [hl, hi, hc]

theorem exists_writeItems {depth : Nat} {vs : List Value}
    (h : ∀ v ∈ vs, ∃ w, writeValue v = .ok w ∧ Written depth w v) :
    ∃ ws, writeItems vs = .ok ws ∧ List.Forall₂ (Written depth) ws vs := by
  induction vs with
  | nil => exact ⟨[], rfl, .nil⟩
  | cons v vs ih =>
    obtain ⟨hv, hvs⟩ := List.forall_mem_cons.1 h
    obtain ⟨w, hw, hr⟩ := hv
    obtain ⟨ws, hws, hrs⟩ := ih hvs
    refine ⟨w :: ws, ?_, .cons hr hrs⟩
    rw [writeItems, hw, hws]
    rfl

theorem written_array {depth : Nat} {ws : List Text} {vs : List Value}
    (h : List.Forall₂ (Written depth) ws vs) :
    Written (depth + 1) (['['] ++ List.intercalate [',', ' '] ws ++ [']']) (.array vs) := by
  refine ⟨⟨'[', _, rfl, by decide⟩, fun {c} hc r => ?_⟩
  have ha : array (value depth) (List.intercalate [',', ' '] ws ++ ']' :: c :: r) =
      .ok (vs, c :: r) := by
    cases h with
    | nil => rfl
    | cons hw hs =>
      have hx := starts_intercalate (.cons hw hs) (']' :: c :: r)
      have gap := hx.skipGap
      have items := arrayItems_written (.cons hw hs) (by simp) (c :: r)
      generalize List.intercalate [',', ' '] _ ++ ']' :: c :: r = x at hx gap items ⊢
      obtain ⟨d, x, rfl, -, -, -, -, hd⟩ := hx
      simp [array, gap, items, hd]
  rw [List.append_assoc, List.append_assoc]
  change value (depth + 1) ('[' :: (List.intercalate [',', ' '] ws ++ ']' :: c :: r)) = _
  rw [value, ha]
  rfl

/-- Values that can be written: collections are arrays, nested only so deep. -/
inductive Plain : Nat → Value → Prop
  | text (depth : Nat) (t : Text) : Plain depth (.text t)
  | integer (depth : Nat) {n : Int} (hn : fitsSignedWord n) : Plain depth (.integer n)
  | boolean (depth : Nat) (b : Bool) : Plain depth (.boolean b)
  | array {depth : Nat} {vs : List Value} (h : ∀ v ∈ vs, Plain depth v) :
      Plain (depth + 1) (.array vs)

/-- A plain value is written, and read back where collections may be nested as deep as its own. -/
theorem Plain.exists_written {depth : Nat} {v : Value} (h : Plain depth v) :
    ∃ w, writeValue v = .ok w ∧ Written depth w v := by
  induction h with
  | text depth t => exact ⟨_, rfl, written_text t depth⟩
  | integer depth hn => exact ⟨_, if_pos hn, written_integer hn depth⟩
  | boolean depth b => exact ⟨_, rfl, written_boolean b depth⟩
  | array _ ih =>
    obtain ⟨ws, hw, hs⟩ := exists_writeItems ih
    refine ⟨_, ?_, written_array hs⟩
    rw [writeValue, hw]
    rfl

end FencedCode.Toml
