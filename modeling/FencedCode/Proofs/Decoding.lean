import FencedCode.Text.Utf8
import Mathlib.Data.List.Basic

/-! Decoding gives back the text that was encoded, so that different texts have different bytes. -/
namespace FencedCode.Utf8

theorem next_of_lead {b lo hi : UInt8} {n value : Nat} (hb : 0x80 ≤ b.toNat)
    (h : lead? b = some (n, value, lo, hi)) (bs : Bytes) :
    next b bs = continuation 1 value n lo hi bs := by
  have hn : ¬ b < 0x80 := by
    rw [UInt8.lt_iff_toNat_lt]
    exact Nat.not_lt.2 hb
  rw [next, if_neg hn, h]

theorem lead?_two {b : UInt8} {k : Nat} (hb : b.toNat = k + 0xC0) (hk : 2 ≤ k) (hk' : k < 32) :
    lead? b = some (1, k, 0x80, 0xBF) := by
  have hr : 0xC2 ≤ k + 0xC0 ∧ k + 0xC0 ≤ 0xDF := by omega
  simp only [lead?, hb, if_pos hr, Nat.add_sub_cancel]

/-- After the first lead byte of this size, and after the one before the surrogates, not all
continuation bytes are allowed. -/
theorem lead?_three {b : UInt8} {k : Nat} (hb : b.toNat = k + 0xE0) (hk : k < 16) :
    ∃ lo hi, lead? b = some (2, k, lo, hi) ∧ lo.toNat = (if k = 0 then 0xA0 else 0x80) ∧
      hi.toNat = if k = 13 then 0x9F else 0xBF := by
  unfold lead?
  rw [hb]
  by_cases h₀ : k = 0
  · subst h₀
    exact ⟨0xA0, 0xBF, by simp, rfl, rfl⟩
  · by_cases h₁₃ : k = 13
    · subst h₁₃
      exact ⟨0x80, 0x9F, by simp, rfl, rfl⟩
    · have hr : 0xE1 ≤ k + 0xE0 ∧ k + 0xE0 ≤ 0xEF := by omega
      refine ⟨0x80, 0xBF, ?_, by rw [if_neg h₀]; rfl, by rw [if_neg h₁₃]; rfl⟩
      simp [hr, h₀, h₁₃]

theorem lead?_four {b : UInt8} {k : Nat} (hb : b.toNat = k + 0xF0) (hk : k < 5) :
    ∃ lo hi, lead? b = some (3, k, lo, hi) ∧ lo.toNat = (if k = 0 then 0x90 else 0x80) ∧
      hi.toNat = if k = 4 then 0x8F else 0xBF := by
  unfold lead?
  rw [hb]
  obtain rfl | rfl | rfl | rfl | rfl : k = 0 ∨ k = 1 ∨ k = 2 ∨ k = 3 ∨ k = 4 := by omega
  · exact ⟨0x90, 0xBF, by simp, rfl, rfl⟩
  · exact ⟨0x80, 0xBF, by simp, rfl, rfl⟩
  · exact ⟨0x80, 0xBF, by simp, rfl, rfl⟩
  · exact ⟨0x80, 0xBF, by simp, rfl, rfl⟩
  · exact ⟨0x80, 0x8F, by simp, rfl, rfl⟩

theorem continuation_cons {b lo hi : UInt8} {k : Nat} (hb : b.toNat = k + 0x80)
    (hl : lo.toNat ≤ k + 0x80) (hh : k + 0x80 ≤ hi.toNat) (size value n : Nat) (bs : Bytes) :
    continuation size value (n + 1) lo hi (b :: bs) =
      continuation (size + 1) (value * 64 + k) n 0x80 0xBF bs := by
  have hr : lo ≤ b ∧ b ≤ hi := by
    rw [UInt8.le_iff_toNat_le, UInt8.le_iff_toNat_le, hb]
    exact ⟨hl, hh⟩
  rw [continuation, if_pos hr, hb, Nat.add_sub_cancel]

/-- A continuation byte holds six bits. -/
theorem toNat_tail (k : Nat) : (UInt8.ofNat (k % 64 + 0x80)).toNat = k % 64 + 0x80 := by
  rw [UInt8.toNat_ofNat']
  omega

theorem continuation_tail (k size value n : Nat) (bs : Bytes) :
    continuation size value (n + 1) 0x80 0xBF (UInt8.ofNat (k % 64 + 0x80) :: bs) =
      continuation (size + 1) (value * 64 + k % 64) n 0x80 0xBF bs := by
  refine continuation_cons (toNat_tail k) ?_ ?_ size value n bs
  · change 0x80 ≤ _
    omega
  · change _ ≤ 0xBF
    omega

theorem continuation_zero {value : Nat} {c : Char} (h : value = c.toNat) (size : Nat)
    (lo hi : UInt8) (bs : Bytes) : continuation size value 0 lo hi bs = (.char c size, bs) := by
  rw [continuation, h, Char.ofNat_toNat]

/-- The bytes of a character are read as this character. -/
theorem next_utf8EncodeChar (c : Char) (bs : Bytes) :
    ∃ b rest size, String.utf8EncodeChar c = b :: rest ∧
      next b (rest ++ bs) = (.char c size, bs) := by
  have hv : c.toNat < 0xD800 ∨ (0xDFFF < c.toNat ∧ c.toNat < 0x110000) := c.valid
  have he : c.val.toNat = c.toNat := rfl
  rw [String.utf8EncodeChar]
  simp only [he]
  split_ifs with h₁ h₂ h₃
  · refine ⟨_, _, 1, rfl, ?_⟩
    have hb : (UInt8.ofNat c.toNat).toNat = c.toNat := by
      rw [UInt8.toNat_ofNat']
      omega
    have hl : UInt8.ofNat c.toNat < 0x80 := by
      rw [UInt8.lt_iff_toNat_lt, hb]
      exact Nat.lt_succ_of_le h₁
    rw [next, if_pos hl, hb, Char.ofNat_toNat]
    rfl
  · refine ⟨_, _, 2, rfl, ?_⟩
    have hb : (UInt8.ofNat (c.toNat / 64 % 32 + 192)).toNat = c.toNat / 64 + 0xC0 := by
      rw [UInt8.toNat_ofNat']
      omega
    rw [next_of_lead (by omega) (lead?_two hb (by omega) (by omega)), List.cons_append,
      continuation_tail, continuation_zero (c := c) (by omega)]
    rfl
  · refine ⟨_, _, 3, rfl, ?_⟩
    have hb : (UInt8.ofNat (c.toNat / 4096 % 16 + 224)).toNat = c.toNat / 4096 + 0xE0 := by
      rw [UInt8.toNat_ofNat']
      omega
    obtain ⟨lo, hi, hl, hlo, hhi⟩ := lead?_three hb (by omega)
    rw [next_of_lead (by omega) hl, List.cons_append, List.cons_append,
      continuation_cons (toNat_tail (c.toNat / 64)), continuation_tail,
      continuation_zero (c := c) (by omega)]
    · rfl
    · rw [hlo]
      split <;> omega
    · rw [hhi]
      split <;> omega
  · refine ⟨_, _, 4, rfl, ?_⟩
    have hb : (UInt8.ofNat (c.toNat / 262144 % 8 + 240)).toNat = c.toNat / 262144 + 0xF0 := by
      rw [UInt8.toNat_ofNat']
      omega
    obtain ⟨lo, hi, hl, hlo, hhi⟩ := lead?_four hb (by omega)
    rw [next_of_lead (by omega) hl, List.cons_append, List.cons_append, List.cons_append,
      continuation_cons (toNat_tail (c.toNat / 4096)), continuation_tail, continuation_tail,
      continuation_zero (c := c) (by omega)]
    · rfl
    · rw [hlo]
      split <;> omega
    · rw [hhi]
      split <;> omega

theorem decodeFrom_utf8 (t : Text) (i : Nat) (done : Text) :
    decodeFrom i done t.utf8 = .ok (done.reverse ++ t) := by
  induction t generalizing i done with
  | nil => rw [Text.utf8, List.flatMap_nil, decodeFrom, List.append_nil]
  | cons c t ih =>
    obtain ⟨b, rest, size, hb, hn⟩ := next_utf8EncodeChar c (Text.utf8 t)
    have hu : Text.utf8 (c :: t) = b :: (rest ++ Text.utf8 t) := by
      rw [Text.utf8, List.flatMap_cons, hb]
      rfl
    rw [hu, decodeFrom]
    simp only [hn, ih]
    simp

theorem decode_utf8 (t : Text) : decode t.utf8 = .ok t := decodeFrom_utf8 t 0 []

end FencedCode.Utf8
