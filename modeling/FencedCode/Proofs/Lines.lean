import FencedCode.Text.Line
import Mathlib.Data.List.Basic

/-! Cutting a text into lines and putting the lines together again are inverse to each other, as
long as every line that another one follows is a whole one. -/
namespace FencedCode

namespace Line

/-- A line that can stand before another one: it has an ending, its only line feed is there, and
its content leaves no carriage return before a bare line feed. -/
structure Whole (l : Line) : Prop where
  ended : l.ending ≠ .missing
  unbroken : '\n' ∉ l.content
  bare : l.ending = .lf → l.content.getLast? ≠ some '\r'

/-- A line that can only stand at the end of a text, because it has no ending. -/
structure Unended (l : Line) : Prop where
  open_end : l.ending = .missing
  unbroken : '\n' ∉ l.content
  filled : l.content ≠ []

@[simp] theorem text_ofText (t : Text) : (ofText t).text = t := by
  have ht := t.reverse_reverse
  unfold ofText
  split <;> next h => simp_all [text, Ending.text]

theorem ofText_append_lf (c : Text) :
    ofText (c ++ ['\n']) =
      if c.getLast? = some '\r' then ⟨c.dropLast, .crlf⟩ else ⟨c, .lf⟩ := by
  rcases List.eq_nil_or_concat c with rfl | ⟨d, x, rfl⟩
  · rfl
  · by_cases hx : x = '\r'
    · subst hx
      simp [ofText]
    · have hl : (d.concat x).getLast? ≠ some '\r' := by simpa using hx
      rw [if_neg hl]
      unfold ofText
      split
      · next r h =>
        simp only [List.concat_eq_append, List.reverse_append, List.reverse_cons, List.reverse_nil,
          List.nil_append, List.cons_append, List.cons.injEq, true_and] at h
        exact absurd h.1 hx
      · next r _ h =>
        have hr : (d.concat x).reverse = r := by simpa using h
        rw [← hr, List.reverse_reverse]
      · next h =>
        simp at h

theorem ofText_of_unbroken {c : Text} (h : '\n' ∉ c) : ofText c = ⟨c, .missing⟩ := by
  have hn : ∀ r, c.reverse ≠ '\n' :: r := by
    intro r hr
    apply h
    rw [← List.mem_reverse, hr]
    exact List.mem_cons_self
  unfold ofText
  split
  · next r hr => exact absurd hr (hn _)
  · next r _ hr => exact absurd hr (hn _)
  · rfl

theorem Whole.ofText_text {l : Line} (h : l.Whole) : ofText l.text = l := by
  obtain ⟨c, e⟩ := l
  cases e with
  | missing => exact absurd rfl h.ended
  | lf =>
    rw [text, Ending.text, ofText_append_lf, if_neg (h.bare rfl)]
  | crlf =>
    have hc : text ⟨c, .crlf⟩ = (c ++ ['\r']) ++ ['\n'] := by simp [text, Ending.text]
    rw [hc, ofText_append_lf, if_pos (by simp), List.dropLast_concat]

theorem Unended.ofText_text {l : Line} (h : l.Unended) : ofText l.text = l := by
  obtain ⟨c, e⟩ := l
  obtain rfl : e = .missing := h.open_end
  rw [text, Ending.text, List.append_nil, ofText_of_unbroken h.unbroken]

/-- Whatever is written before a line ending is read back as a whole line. -/
theorem whole_ofText {c : Text} (h : '\n' ∉ c) {e : Ending} (he : e ≠ .missing) :
    (ofText (c ++ e.text)).Whole := by
  cases e with
  | missing => exact absurd rfl he
  | crlf =>
    have hw : (⟨c, .crlf⟩ : Line).Whole := ⟨by simp, h, by simp⟩
    have ho := hw.ofText_text
    rw [text] at ho
    rwa [ho]
  | lf =>
    rw [Ending.text, ofText_append_lf]
    split
    · exact ⟨by simp, fun hm => h (List.mem_of_mem_take (List.dropLast_eq_take ▸ hm)), by simp⟩
    · next hr => exact ⟨by simp, h, fun _ => hr⟩

end Line

@[simp] theorem joinLines_nil : joinLines [] = [] := rfl

@[simp] theorem joinLines_cons (l : Line) (ls : List Line) :
    joinLines (l :: ls) = l.text ++ joinLines ls := by simp [joinLines]

@[simp] theorem joinLines_append (ls ms : List Line) :
    joinLines (ls ++ ms) = joinLines ls ++ joinLines ms := by simp [joinLines]

namespace Text

theorem cutLinesFrom_append_lf {c : Text} (h : '\n' ∉ c) (line r : Text) :
    cutLinesFrom line (c ++ '\n' :: r) = (line.reverse ++ c ++ ['\n']) :: cutLines r := by
  induction c generalizing line with
  | nil => simp [cutLinesFrom, cutLines]
  | cons x c ih =>
    obtain ⟨hx, hc⟩ := not_or.1 (mt List.mem_cons.2 h)
    rw [List.cons_append, cutLinesFrom, if_neg (Ne.symm hx), ih hc]
    simp

theorem cutLinesFrom_of_unbroken {c : Text} (h : '\n' ∉ c) (line : Text) :
    cutLinesFrom line c = if line.reverse ++ c = [] then [] else [line.reverse ++ c] := by
  induction c generalizing line with
  | nil => cases line <;> simp [cutLinesFrom]
  | cons x c ih =>
    obtain ⟨hx, hc⟩ := not_or.1 (mt List.mem_cons.2 h)
    rw [cutLinesFrom, if_neg (Ne.symm hx), ih hc]
    simp

@[simp] theorem splitLines_nil : splitLines [] = [] := rfl

theorem splitLines_append_lf {c : Text} (h : '\n' ∉ c) (r : Text) :
    splitLines (c ++ '\n' :: r) = Line.ofText (c ++ ['\n']) :: splitLines r := by
  rw [splitLines, cutLines, cutLinesFrom_append_lf h]
  rfl

theorem splitLines_of_unbroken {c : Text} (h : '\n' ∉ c) (hc : c ≠ []) :
    splitLines c = [⟨c, .missing⟩] := by
  rw [splitLines, cutLines, cutLinesFrom_of_unbroken h, if_neg (by simpa using hc)]
  simp [Line.ofText_of_unbroken h]

/-- Lines that are put together with line feeds are cut apart there. -/
theorem cutLines_flatMap_lf {ts : List Text} (h : ∀ t ∈ ts, '\n' ∉ t) :
    cutLines (ts.flatMap (· ++ ['\n'])) = ts.map (· ++ ['\n']) := by
  induction ts with
  | nil => rfl
  | cons t ts ih =>
    obtain ⟨ht, hs⟩ := List.forall_mem_cons.1 h
    rw [List.flatMap_cons, List.append_assoc, List.singleton_append, cutLines,
      cutLinesFrom_append_lf ht, ih hs]
    rfl

theorem splitLines_flatMap_lf {ts : List Text} (h : ∀ t ∈ ts, '\n' ∉ t) :
    splitLines (ts.flatMap (· ++ ['\n'])) = ts.map fun t => Line.ofText (t ++ ['\n']) := by
  rw [splitLines, cutLines_flatMap_lf h, List.map_map]
  rfl

/-- Induction over the lines of a text: it is empty, or one line without an ending, or a line that
ends in a line feed and the text after it. -/
theorem lineInduction {P : Text → Prop} (nil : P [])
    (last : ∀ c : Text, '\n' ∉ c → c ≠ [] → P c)
    (line : ∀ c r : Text, '\n' ∉ c → P r → P (c ++ '\n' :: r)) (t : Text) : P t := by
  induction hn : t.length using Nat.strongRecOn generalizing t with
  | ind n ih =>
    by_cases hm : '\n' ∈ t
    · obtain ⟨c, r, rfl, hc⟩ := List.eq_append_cons_of_mem hm
      have hr : r.length < n := by
        rw [← hn, List.length_append, List.length_cons]
        omega
      exact line c r hc (ih r.length hr r rfl)
    · by_cases ht : t = []
      · exact ht ▸ nil
      · exact last t hm ht

@[simp] theorem joinLines_splitLines (t : Text) : joinLines (splitLines t) = t := by
  induction t using lineInduction with
  | nil => rfl
  | last c hc hn => simp [splitLines_of_unbroken hc hn, Line.text, Ending.text]
  | line c r hc ih => simp [splitLines_append_lf hc, ih]

end Text

/-- Lines that a text can be cut into: all are whole, but that the last one may lack its ending. -/
def Lined : List Line → Prop
  | [] => True
  | l :: ls => (l.Whole ∨ (l.Unended ∧ ls = [])) ∧ Lined ls

theorem lined_append {ls ms : List Line} (h : ∀ l ∈ ls, l.Whole) :
    Lined (ls ++ ms) ↔ Lined ms := by
  induction ls with
  | nil => rfl
  | cons l ls ih =>
    obtain ⟨hl, hs⟩ := List.forall_mem_cons.1 h
    rw [List.cons_append, Lined, ih hs]
    exact and_iff_right (.inl hl)

theorem Lined.split {ls ms : List Line} (h : Lined (ls ++ ms)) (hm : ms ≠ []) :
    (∀ l ∈ ls, l.Whole) ∧ Lined ms := by
  induction ls with
  | nil => exact ⟨by simp, h⟩
  | cons l ls ih =>
    obtain ⟨hl | ⟨_, he⟩, hs⟩ := h
    · exact ⟨List.forall_mem_cons.2 ⟨hl, (ih hs).1⟩, (ih hs).2⟩
    · exact absurd (List.append_eq_nil_iff.1 he).2 hm

theorem Lined.unbroken {ls : List Line} (h : Lined ls) : ∀ l ∈ ls, '\n' ∉ l.content := by
  induction ls with
  | nil => simp
  | cons l ls ih =>
    refine List.forall_mem_cons.2 ⟨?_, ih h.2⟩
    exact h.1.elim Line.Whole.unbroken fun hu => hu.1.unbroken

theorem Lined.whole_of_mem {ls : List Line} (h : Lined ls) {l : Line} (hl : l ∈ ls)
    (he : l.ending ≠ .missing) : l.Whole := by
  induction ls with
  | nil => contradiction
  | cons m ls ih =>
    rcases List.mem_cons.1 hl with rfl | hl
    · exact h.1.resolve_right fun hu => he hu.1.open_end
    · exact ih h.2 hl

theorem Line.Whole.splitLines_text_append {l : Line} (h : l.Whole) (t : Text) :
    (l.text ++ t).splitLines = l :: t.splitLines := by
  have ho := h.ofText_text
  obtain ⟨c, e⟩ := l
  cases e with
  | missing => exact absurd rfl h.ended
  | lf =>
    have ht : text ⟨c, .lf⟩ ++ t = c ++ '\n' :: t := by simp [text, Ending.text]
    rw [ht, Text.splitLines_append_lf h.unbroken]
    exact congrArg (· :: _) ho
  | crlf =>
    have ht : text ⟨c, .crlf⟩ ++ t = (c ++ ['\r']) ++ '\n' :: t := by simp [text, Ending.text]
    have hu : '\n' ∉ c ++ ['\r'] := by simpa using h.unbroken
    rw [ht, Text.splitLines_append_lf hu, List.append_assoc]
    exact congrArg (· :: _) ho

theorem splitLines_joinLines {ls : List Line} (h : Lined ls) : (joinLines ls).splitLines = ls := by
  induction ls with
  | nil => rfl
  | cons l ls ih =>
    obtain ⟨hl | ⟨hl, rfl⟩, hs⟩ := h
    · rw [joinLines_cons, hl.splitLines_text_append, ih hs]
    · obtain ⟨c, e⟩ := l
      obtain rfl : e = .missing := hl.open_end
      simp only [joinLines_cons, joinLines_nil, Line.text, Ending.text, List.append_nil]
      exact Text.splitLines_of_unbroken hl.unbroken hl.filled

theorem lined_splitLines (t : Text) : Lined t.splitLines := by
  induction t using Text.lineInduction with
  | nil => trivial
  | last c hc hn =>
    rw [Text.splitLines_of_unbroken hc hn]
    exact ⟨.inr ⟨⟨rfl, hc, hn⟩, rfl⟩, trivial⟩
  | line c r hc ih =>
    rw [Text.splitLines_append_lf hc]
    exact ⟨.inl (Line.whole_ofText hc (e := .lf) (by simp)), ih⟩

theorem Text.unbroken_of_mem_lines {t c : Text} (h : c ∈ t.lines) : '\n' ∉ c := by
  obtain ⟨l, hl, rfl⟩ := List.mem_map.1 h
  exact (lined_splitLines t).unbroken l hl

end FencedCode
