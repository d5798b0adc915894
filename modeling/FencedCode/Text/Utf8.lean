import FencedCode.Text.Basic

/-! Texts as UTF-8 bytes: encoding, strict decoding that says where it fails, and decoding that
puts the replacement character in place of every malformed piece. -/
namespace FencedCode

abbrev Bytes := List UInt8

def Text.utf8 (t : Text) : Bytes := t.flatMap String.utf8EncodeChar

namespace Utf8

/-- What stands at the head of a byte sequence. The size of a malformed piece is the number of bytes
that could still have begun a character. -/
inductive Piece
  | char (c : Char) (size : Nat)
  | malformed (size : Nat)
  | truncated

/-- How many bytes continue a character after its lead byte, its leading bits, and the range in
which the first continuation byte must lie. -/
def lead? (b : UInt8) : Option (Nat × Nat × UInt8 × UInt8) :=
  let n := b.toNat
  if 0xC2 ≤ n ∧ n ≤ 0xDF then some (1, n - 0xC0, 0x80, 0xBF)
  else if n = 0xE0 then some (2, 0, 0xA0, 0xBF)
  else if n = 0xED then some (2, 0xD, 0x80, 0x9F)
  else if 0xE1 ≤ n ∧ n ≤ 0xEF then some (2, n - 0xE0, 0x80, 0xBF)
  else if n = 0xF0 then some (3, 0, 0x90, 0xBF)
  else if 0xF1 ≤ n ∧ n ≤ 0xF3 then some (3, n - 0xF0, 0x80, 0xBF)
  else if n = 0xF4 then some (3, 4, 0x80, 0x8F)
  else none

/-- Reads `n` continuation bytes, the first of them between `lo` and `hi`. -/
def continuation (size value : Nat) : Nat → UInt8 → UInt8 → Bytes → Piece × Bytes
  | 0, _, _, bs => (.char (Char.ofNat value) size, bs)
  | _ + 1, _, _, [] => (.truncated, [])
  | n + 1, lo, hi, b :: bs =>
    if lo ≤ b ∧ b ≤ hi then
      continuation (size + 1) (value * 64 + (b.toNat - 0x80)) n 0x80 0xBF bs
    else (.malformed size, b :: bs)

theorem continuation_length_le (size value n : Nat) (lo hi : UInt8) (bs : Bytes) :
    (continuation size value n lo hi bs).2.length ≤ bs.length := by
  induction n generalizing size value lo hi bs with
  | zero => simp [continuation]
  | succ n ih =>
    cases bs with
    | nil => simp [continuation]
    | cons b bs =>
      simp only [continuation]
      split
      · exact Nat.le_succ_of_le (ih ..)
      · simp

/-- The piece that begins with the byte `b`, and the bytes after it. -/
def next (b : UInt8) (bs : Bytes) : Piece × Bytes :=
  if b < 0x80 then (.char (Char.ofNat b.toNat) 1, bs)
  else match lead? b with
    | none => (.malformed 1, bs)
    | some (n, value, lo, hi) => continuation 1 value n lo hi bs

theorem next_length_le (b : UInt8) (bs : Bytes) : (next b bs).2.length ≤ bs.length := by
  unfold next
  split
  · simp
  · split
    · simp
    · exact continuation_length_le ..

/-- The first malformed piece of a byte sequence: its offset and, unless the input ends inside it,
its size. -/
structure Fault where
  offset : Nat
  size : Option Nat
  deriving DecidableEq

def Fault.message (f : Fault) : String :=
  match f.size with
  | some n => s!"invalid utf-8 sequence of {n} bytes from index {f.offset}"
  | none => s!"incomplete utf-8 byte sequence from index {f.offset}"

/-- Decodes from offset `i` on; `done` holds the characters so far in reverse. -/
def decodeFrom (i : Nat) (done : Text) : Bytes → Except Fault Text
  | [] => .ok done.reverse
  | b :: bs =>
    have : (next b bs).2.length < (b :: bs).length := Nat.lt_succ_of_le (next_length_le b bs)
    match (next b bs).1 with
    | .char c size => decodeFrom (i + size) (c :: done) (next b bs).2
    | .malformed n => .error ⟨i, some n⟩
    | .truncated => .error ⟨i, none⟩
termination_by bs => bs.length
decreasing_by all_goals assumption

def decode (bs : Bytes) : Except Fault Text := decodeFrom 0 [] bs

/-- Decodes with one replacement character for every malformed piece. -/
def decodeLossyFrom (done : Text) : Bytes → Text
  | [] => done.reverse
  | b :: bs =>
    have : (next b bs).2.length < (b :: bs).length := Nat.lt_succ_of_le (next_length_le b bs)
    match (next b bs).1 with
    | .char c _ => decodeLossyFrom (c :: done) (next b bs).2
    | _ => decodeLossyFrom ('\uFFFD' :: done) (next b bs).2
termination_by bs => bs.length
decreasing_by all_goals assumption

def decodeLossy (bs : Bytes) : Text := decodeLossyFrom [] bs

end Utf8

end FencedCode
