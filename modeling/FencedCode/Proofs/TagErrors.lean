import FencedCode.Proofs.Decoding
import FencedCode.Proofs.TagGrammar

/-! Errors in tag lines. The column of an error is the place of the first character that cannot be
parsed: what stands before it can be completed to a tag line, and with it this is no longer
possible. A literal counts as one character, at the place of its opening quote. -/
namespace FencedCode.Tags

/-- A text that can be completed to a line which the parser accepts. -/
def Viable (t : Text) : Prop := ∃ u tags, parse (t ++ u) = .ok tags

/-- The column where `rest` remains of a line, found by counting bytes. There is none if the bytes
before `rest` end inside of a character. -/
def byteColumn? (line rest : Text) : Option Nat :=
  match Utf8.decode (line.utf8.take (line.utf8.length - rest.utf8.length)) with
  | .ok before => some (before.length + 1)
  | .error _ => none

theorem byteColumn?_append (before rest : Text) :
    byteColumn? (before ++ rest) rest = some (before.length + 1) := by
  have hu : Text.utf8 (before ++ rest) = before.utf8 ++ rest.utf8 := List.flatMap_append
  rw [byteColumn?, hu, List.length_append, Nat.add_sub_cancel, List.take_left, Utf8.decode_utf8]

theorem column_errorAt (before rest : Text) (reason : String) :
    (errorAt (before ++ rest) rest reason).column = before.length + 1 := by
  rw [errorAt, List.length_append, Nat.add_sub_cancel]

/-- A way from a stage to the end of a list. -/
def Stage.completion : Stage → Text
  | .marker => ['[', ']']
  | .separator => [']']
  | .literal => [']']
  | .close => []

theorem Stage.tokens_completion (q : Stage) : Tokens q q.completion [] .close := by
  cases q with
  | marker => exact .cons (.sign (q := .separator) (by decide)) (.single (.sign (by decide)))
  | separator => exact .single (.sign (by decide))
  | literal => exact .single (.sign (by decide))
  | close => exact .nil

section Viable

variable {lead w t : Text} (hl : ∀ c ∈ lead, isBlank c) {ss : List Text} {q : Stage}

include hl

theorem viable_iff :
    Viable (lead ++ (marker ++ t)) ↔ ∃ u ss, Tokens .marker (t ++ u) ss .close := by
  simp only [Viable, List.append_assoc, parse_eq_ok_iff_tokens hl]
  constructor
  · rintro ⟨u, tags, ss, htok, -⟩
    exact ⟨u, ss, htok⟩
  · rintro ⟨u, ss, htok⟩
    exact ⟨u, _, ss, htok, rfl⟩

theorem viable_of_tokens (h : Tokens .marker w ss q) : Viable (lead ++ (marker ++ w)) :=
  (viable_iff hl).2 ⟨q.completion, ss, h.append_untagged q.tokens_completion⟩

/-- How a text that was read up to some stage can be completed. -/
theorem exists_tokens_of_viable (h : Tokens .marker w ss q)
    (hv : Viable (lead ++ (marker ++ (w ++ t)))) : ∃ u more, Tokens q (t ++ u) more .close := by
  obtain ⟨u, ss', htok⟩ := (viable_iff hl).1 hv
  rw [List.append_assoc] at htok
  obtain ⟨more, -, hmore⟩ := h.cancel htok
  exact ⟨u, more, hmore⟩

end Viable

namespace Stuck

variable {q : Stage} {rest : Text}

/-- A character that does not fit cannot be the next one, whatever comes after it. -/
theorem not_tokens_cons {c : Char} (h : Stuck q (c :: rest)) (hc : ¬ IsQuote c) (u : Text)
    {ss : List Text} : ¬ Tokens q (c :: u) ss .close := by
  intro ht
  generalize hx : c :: u = x at ht
  cases ht with
  | nil => contradiction
  | cons first more =>
    have hs : [c] <+: c :: rest := ⟨rest, rfl⟩
    cases first with
    | space hd =>
      obtain ⟨rfl, -⟩ := List.cons.inj hx
      exact h.refused (.space hd) hs
    | sign hd =>
      obtain ⟨rfl, -⟩ := List.cons.inj hx
      exact h.refused (.sign hd) hs
    | literal hd =>
      obtain ⟨d, v, rfl, hq⟩ := hd.exists_cons
      obtain ⟨rfl, -⟩ := List.cons.inj hx
      exact hc hq

/-- A literal at a place where nothing fits cannot be the next token. -/
theorem not_tokens_literal {w s : Text} (h : Stuck q rest) (hw : Literal w s) (hp : w <+: rest)
    (u : Text) {ss : List Text} : ¬ Tokens q (w ++ u) ss .close := by
  intro ht
  obtain ⟨d, v, rfl, hq⟩ := hw.exists_cons
  generalize hx : d :: v ++ u = x at ht
  cases ht with
  | nil => contradiction
  | cons first more =>
    cases first with
    | space hd =>
      obtain ⟨rfl, -⟩ := List.cons.inj hx
      rw [not_isSpace_of_isQuote hq] at hd
      contradiction
    | sign hd =>
      obtain ⟨rfl, -⟩ := List.cons.inj hx
      exact not_isQuote_of_mem_signs hd hq
    | literal _ => exact h.refused (.literal hw) hp

end Stuck

/-- Where a tag line is cut by its error: nothing fits at the start of the second part, and the
first part goes on only with what its stage allows. -/
theorem exists_cut {line : Text} {e : TagError} (hline : isTagLine line)
    (he : parse line = .error e) :
    ∃ before stop q, line = before ++ stop ∧ read line = .error (stop, e.reason) ∧
      e.column = before.length + 1 ∧ Stuck q stop ∧ Viable before ∧
      ∀ t, Viable (before ++ t) → ∃ u more, Tokens q (t ++ u) more .close := by
  obtain ⟨lead, rest, rfl, hl⟩ := exists_marker (isTagLine_iff.1 hline)
  rw [parse] at he
  rcases read_cases hl rest with ⟨ss, hread, -⟩ | ⟨w, ss, q, stop, reason, hread, rfl, hw, hs⟩
  · rw [hread] at he
    contradiction
  · rw [hread] at he
    obtain rfl := Except.error.inj he
    have hcut : lead ++ (marker ++ (w ++ stop)) = lead ++ (marker ++ w) ++ stop := by
      rw [List.append_assoc, List.append_assoc]
    refine ⟨lead ++ (marker ++ w), stop, q, hcut, hread, ?_, hs, viable_of_tokens hl hw, ?_⟩
    · simp only [hcut, column_errorAt]
    · intro t hv
      rw [List.append_assoc, List.append_assoc] at hv
      exact exists_tokens_of_viable hl hw hv

/-- The error of a tag line points at the first character that cannot be parsed, and the bytes
before this one are whole characters. -/
theorem parse_error_column (line : Text) (e : TagError) (hline : isTagLine line)
    (he : parse line = .error e) :
    (1 ≤ e.column ∧ e.column ≤ line.length + 1) ∧ Viable (line.take (e.column - 1)) ∧
      (∀ c ∈ (line.drop (e.column - 1)).head?,
        (¬ IsQuote c → ¬ Viable (line.take e.column)) ∧
        (IsQuote c → ∀ w s, Literal w s → w <+: line.drop (e.column - 1) →
          ¬ Viable (line.take (e.column - 1) ++ w))) ∧
      ∃ stop, read line = .error (stop, e.reason) ∧ byteColumn? line stop = some e.column := by
  obtain ⟨before, stop, q, rfl, hread, hcol, hs, hviable, hmore⟩ := exists_cut hline he
  rw [hcol, Nat.add_sub_cancel, List.take_left, List.drop_left]
  refine ⟨⟨by omega, by simp⟩, hviable, fun c hc => ⟨fun hq => ?_, fun _ w s hw hp hv => ?_⟩,
    stop, hread, byteColumn?_append before stop⟩
  · obtain ⟨r, rfl⟩ := List.head?_eq_some_iff.1 hc
    have ht : (before ++ c :: r).take (before.length + 1) = before ++ [c] := by
      rw [List.append_cons, List.take_left' (by simp)]
    rw [ht]
    intro hv
    obtain ⟨u, more, htok⟩ := hmore [c] hv
    exact hs.not_tokens_cons hq u htok
  · obtain ⟨u, more, htok⟩ := hmore w hv
    exact hs.not_tokens_literal hw hp u htok

/-- A line of tags with white space of two bytes before the marker, a character of two bytes in its
first literal, and an escape that does not exist in its second one. -/
def strayEscape : Text := "\u00a0:tags: ['\u00e9' , \"b\\q\"]".toList

/-- The error is at the quote that opens the second literal, and not at the escape in it. -/
theorem parse_error_column_strayEscape :
    isTagLine strayEscape ∧
      parse strayEscape = .error ⟨strayEscape, 16, "expected a list of string literals"⟩ ∧
      '"' ∈ (strayEscape.drop 15).head? ∧ Viable (strayEscape.take 15) ∧
      (∀ w s, Literal w s → w <+: strayEscape.drop 15 → ¬ Viable (strayEscape.take 15 ++ w)) ∧
      ∃ stop, read strayEscape = .error (stop, "expected a list of string literals") ∧
        byteColumn? strayEscape stop = some 16 := by
  have hline : isTagLine strayEscape := by decide +kernel
  have he : parse strayEscape =
      .error ⟨strayEscape, 16, "expected a list of string literals"⟩ := by decide +kernel
  have hc : '"' ∈ (strayEscape.drop 15).head? := by decide +kernel
  obtain ⟨-, hv, hq, hb⟩ := parse_error_column strayEscape _ hline he
  exact ⟨hline, he, hc, hv, (hq '"' hc).2 (.inl rfl), hb⟩

end FencedCode.Tags
