import FencedCode.Proofs.CodeLines
import FencedCode.Proofs.Decoding
import FencedCode.Proofs.Indentation

/-! The breaking up of a call on byte offsets. The arguments are cut out of the code between two
offsets while a counter follows the brackets, so that there are operations that can fail: a counter
leaves its range, or a cut goes backwards or through a character. None of them fails, whatever the
code is. -/
namespace FencedCode

namespace Text

/-- No character is cut at the offset: one starts there, or the text ends. -/
def IsBoundary (t : Text) (i : Nat) : Prop :=
  i = t.utf8.length ∨ i ∈ (t.offsets 0).map Prod.fst

instance (t : Text) (i : Nat) : Decidable (t.IsBoundary i) := inferInstanceAs (Decidable (_ ∨ _))

theorem length_utf8_append (t u : Text) :
    (utf8 (t ++ u)).length = t.utf8.length + u.utf8.length := by
  rw [utf8_append, List.length_append]

theorem length_utf8_cons (c : Char) (t : Text) :
    (utf8 (c :: t)).length = c.utf8Size + t.utf8.length := by
  rw [utf8, List.flatMap_cons, List.length_append, String.length_utf8EncodeChar, utf8]

theorem length_utf8_eq_zero_iff {t : Text} : t.utf8.length = 0 ↔ t = [] := by
  cases t with
  | nil => exact iff_of_true rfl rfl
  | cons c t =>
    have hc := c.utf8Size_pos
    rw [length_utf8_cons]
    exact iff_of_false (by omega) (by simp)

theorem offsets_append (i : Nat) (t u : Text) :
    offsets i (t ++ u) = offsets i t ++ offsets (i + t.utf8.length) u := by
  induction t generalizing i with
  | nil => rfl
  | cons c t ih =>
    rw [List.cons_append, offsets, offsets, ih, length_utf8_cons, Nat.add_assoc, List.cons_append]

theorem lt_of_mem_offsets {i : Nat} {t : Text} {e : Nat × Char} (h : e ∈ offsets i t) :
    e.1 < i + t.utf8.length := by
  induction t generalizing i with
  | nil => contradiction
  | cons c t ih =>
    have hc := c.utf8Size_pos
    rw [length_utf8_cons]
    rcases List.mem_cons.1 h with rfl | h
    · exact Nat.lt_add_of_pos_right (by omega)
    · have := ih h
      omega

theorem snd_mem_of_mem_offsets {i : Nat} {t : Text} {e : Nat × Char} (h : e ∈ offsets i t) :
    e.2 ∈ t := by
  induction t generalizing i with
  | nil => contradiction
  | cons c t ih =>
    rcases List.mem_cons.1 h with rfl | h
    · exact List.mem_cons_self
    · exact List.mem_cons_of_mem c (ih h)

/-- The part of the offsets before a character belongs to the text before it. -/
theorem exists_of_offsets_eq {i j : Nat} {t : Text} {c : Char} {read rest : List (Nat × Char)}
    (h : offsets i t = read ++ (j, c) :: rest) :
    ∃ u v, t = u ++ c :: v ∧ read = offsets i u ∧ j = i + u.utf8.length := by
  induction read generalizing i t with
  | nil =>
    cases t with
    | nil => contradiction
    | cons d t =>
      rw [offsets, List.nil_append] at h
      obtain ⟨he, -⟩ := List.cons.inj h
      obtain ⟨rfl, rfl⟩ := Prod.mk.inj he
      exact ⟨[], t, rfl, rfl, rfl⟩
  | cons e read ih =>
    cases t with
    | nil => contradiction
    | cons d t =>
      rw [offsets, List.cons_append] at h
      obtain ⟨rfl, hr⟩ := List.cons.inj h
      obtain ⟨u, v, rfl, rfl, rfl⟩ := ih hr
      refine ⟨d :: u, v, rfl, rfl, ?_⟩
      rw [length_utf8_cons, Nat.add_assoc]

theorem isBoundary_append (t u : Text) : IsBoundary (t ++ u) t.utf8.length := by
  cases u with
  | nil => exact .inl (by rw [List.append_nil])
  | cons c u =>
    refine .inr ?_
    rw [offsets_append, List.map_append, offsets, Nat.zero_add]
    exact List.mem_append_right _ List.mem_cons_self

/-- The offsets at the two ends of a middle part. -/
theorem boundaries_append (t u v : Text) :
    t.utf8.length ≤ (t ++ u).utf8.length ∧ IsBoundary (t ++ u ++ v) t.utf8.length ∧
      IsBoundary (t ++ u ++ v) (t ++ u).utf8.length := by
  refine ⟨?_, ?_, isBoundary_append (t ++ u) v⟩
  · rw [length_utf8_append]
    exact Nat.le_add_right ..
  · rw [List.append_assoc]
    exact isBoundary_append t (u ++ v)

end Text

namespace Tidy

/-- How far a call is cut up: the number of open brackets, the quote of an open string, the offset
at which the current argument starts, and the arguments before it. -/
structure Cut where
  depth : Nat := 0
  quote : Option Char := none
  start : Nat
  args : List Text := []

namespace Cut

/-- What can go wrong with a counter or with a cut. -/
inductive Fault
  | overflow
  | underflow
  | slice (start stop : Nat)

/-- Adds numbers. A counter can hold those up to `limit`. -/
def plus (limit m n : Nat) : Except Fault Nat :=
  if m + n ≤ limit then .ok (m + n) else .error .overflow

/-- Subtracts numbers. A counter has no sign. -/
def minus (m n : Nat) : Except Fault Nat :=
  if n ≤ m then .ok (m - n) else .error .underflow

/-- The text of the bytes from one offset to another one. -/
def slice (t : Text) (start stop : Nat) : Except Fault Text :=
  if start ≤ stop ∧ t.IsBoundary start ∧ t.IsBoundary stop then
    (Utf8.decode ((t.utf8.take stop).drop start)).mapError fun _ => .slice start stop
  else .error (.slice start stop)

/-- Reads the character `c` at the offset `i`. The outcome is `none` if the call ends before the
code does. -/
def step (limit : Nat) (code : Text) (s : Cut) (i : Nat) (c : Char) :
    Except Fault (Option Cut) :=
  match s.quote with
  | some q => .ok (some { s with quote := if c = q then none else some q })
  | none =>
    if isQuote c then .ok (some { s with quote := some c })
    else if isOpening c then do
      let depth ← plus limit s.depth 1
      .ok (some { s with depth := depth })
    else if isClosing c then do
      let depth ← minus s.depth 1
      if depth = 0 then
        let last ← minus code.utf8.length 1
        if i ≠ last then .ok none
        else
          let arg ← slice code s.start i
          .ok (some { s with depth := depth, args := s.args ++ [arg.trim] })
      else .ok (some { s with depth := depth })
    else if c = ',' ∧ s.depth = 1 then do
      let arg ← slice code s.start i
      let start ← plus limit i 1
      .ok (some { s with start := start, args := s.args ++ [arg.trim] })
    else .ok (some s)

def run (limit : Nat) (code : Text) (s : Cut) : List (Nat × Char) → Except Fault (Option Cut)
  | [] => .ok (some s)
  | (i, c) :: rest => do
    match ← s.step limit code i c with
    | none => .ok none
    | some s => run limit code s rest

/-- The offset of the first opening parenthesis. -/
def opening? (code : Text) : Option Nat :=
  ((code.offsets 0).find? (·.2 == '(')).map Prod.fst

/-- The run from the first parenthesis on comes to the character `c` at the offset `i` in the state
`s`. It may be the run over any code, also over one that is not taken for a call at all. -/
def Reaches (limit : Nat) (code : Text) (s : Cut) (i : Nat) (c : Char) : Prop :=
  ∃ opening read rest, opening? code = some opening ∧
    (code.offsets 0).dropWhile (·.1 < opening) = read ++ (i, c) :: rest ∧
    run limit code { start := opening + 1 } read = .ok (some s)

end Cut

/-- Splits a call into its head and its arguments by cuts at byte offsets. -/
def cutCall (limit : Nat) (code : Text) : Except Cut.Fault (Option (Text × List Text)) :=
  match Cut.opening? code with
  | none => .ok none
  | some opening =>
    if opening = 0 ∨ code.getLast? ≠ some ')' then .ok none
    else do
      let start ← Cut.plus limit opening 1
      match ← Cut.run limit code { start := start }
          ((code.offsets 0).dropWhile (·.1 < opening)) with
      | none => .ok none
      | some s =>
        let args := s.args.filter (!·.isEmpty)
        if args.isEmpty then .ok none
        else do
          let head ← Cut.slice code 0 opening
          .ok (some (head, args))

namespace Cut

section Operations

variable {limit m n i : Nat} {code : Text} {s s' : Cut} {c : Char}

theorem plus_eq (h : m + n ≤ limit) : plus limit m n = .ok (m + n) := if_pos h

theorem minus_eq (h : n ≤ m) : minus m n = .ok (m - n) := if_pos h

theorem run_of_stop (h : s.step limit code i c = .ok none) (rest : List (Nat × Char)) :
    s.run limit code ((i, c) :: rest) = .ok none := by
  rw [run, h]
  rfl

theorem run_of_step (h : s.step limit code i c = .ok (some s')) (rest : List (Nat × Char)) :
    s.run limit code ((i, c) :: rest) = s'.run limit code rest := by
  rw [run, h]
  rfl

theorem slice_append (t u v : Text) :
    slice (t ++ u ++ v) t.utf8.length (t ++ u).utf8.length = .ok u := by
  rw [slice, if_pos (Text.boundaries_append t u v), Text.utf8_append (t ++ u) v, List.take_left,
    Text.utf8_append, List.drop_left, Utf8.decode_utf8]
  rfl

end Operations

/-- A cut inside of a call, at the offset `i` in front of `rest`. What it has read of the current
argument is `arg` in reverse. -/
structure Within (code : Text) (s : Cut) (i : Nat) (arg rest : Text) : Prop where
  depth_pos : 1 ≤ s.depth
  depth_le : s.depth ≤ i
  split : ∃ before, code = before ++ arg.reverse ++ rest ∧ s.start = before.utf8.length ∧
    i = (before ++ arg.reverse).utf8.length

namespace Within

variable {limit i : Nat} {code arg rest r : Text} {s s' : Cut} {c : Char}

theorem boundaries (h : Within code s i arg rest) :
    s.start ≤ i ∧ code.IsBoundary s.start ∧ code.IsBoundary i := by
  obtain ⟨before, rfl, hs, hi⟩ := h.split
  rw [hs, hi]
  exact Text.boundaries_append before arg.reverse rest

theorem slice_eq (h : Within code s i arg rest) : slice code s.start i = .ok arg.reverse := by
  obtain ⟨before, rfl, hs, hi⟩ := h.split
  rw [hs, hi]
  exact slice_append before arg.reverse rest

theorem length_utf8 (h : Within code s i arg (c :: r)) :
    code.utf8.length = i + c.utf8Size + r.utf8.length := by
  obtain ⟨before, rfl, -, hi⟩ := h.split
  rw [Text.length_utf8_append, ← hi, Text.length_utf8_cons, Nat.add_assoc]

/-- A character of the current argument. It can open one more bracket. -/
theorem read (h : Within code s i arg (c :: r)) (hs : s'.start = s.start) (hp : 1 ≤ s'.depth)
    (hd : s'.depth ≤ s.depth + 1) : Within code s' (i + c.utf8Size) (c :: arg) r := by
  obtain ⟨before, hc, hb, hi⟩ := h.split
  have hle := h.depth_le
  have hpos := c.utf8Size_pos
  refine ⟨hp, by omega, before, ?_, hs.trans hb, ?_⟩
  · simpa using hc
  · rw [List.reverse_cons, ← List.append_assoc, Text.length_utf8_append, ← hi,
      Text.length_utf8_cons]
    rfl

/-- After a comma the next argument starts. -/
theorem next (h : Within code s i arg (',' :: r)) (hs : s'.start = i + 1)
    (hd : s'.depth = s.depth) : Within code s' (i + 1) [] r := by
  obtain ⟨before, hc, -, hi⟩ := h.split
  have hle := h.depth_le
  have hpos := h.depth_pos
  have hn : i + 1 = (before ++ arg.reverse ++ [',']).utf8.length := by
    rw [Text.length_utf8_append, ← hi]
    rfl
  refine ⟨by omega, by omega, before ++ arg.reverse ++ [','], ?_, hs.trans hn, ?_⟩
  · simpa using hc
  · simpa using hn

end Within

/-- What a step inside of a call can do. The call ends there, before the code or together with it,
or the step goes on inside of the call. The arguments from there on are those that the definition
on characters gives. -/
inductive Outcome (limit : Nat) (code : Text) (s : Cut) (i : Nat) (c : Char) (arg r : Text) : Prop
  | early (stops : s.step limit code i c = .ok none)
      (args : argumentsFrom (s.depth - 1) s.quote arg (c :: r) = none)
  | last (s' : Cut) (stops : s.step limit code i c = .ok (some s')) (atEnd : r = [])
      (cut : s'.args = s.args ++ [Text.trim arg.reverse])
      (args : argumentsFrom (s.depth - 1) s.quote arg (c :: r) = some [Text.trim arg.reverse])
  | onward (s' : Cut) (arg' : Text) (new : List Text)
      (goes : s.step limit code i c = .ok (some s'))
      (within : Within code s' (i + c.utf8Size) arg' r) (cut : s'.args = s.args ++ new)
      (args : argumentsFrom (s.depth - 1) s.quote arg (c :: r) =
        (argumentsFrom (s'.depth - 1) s'.quote arg' r).map (new ++ ·))

section Steps

variable {limit i : Nat} {code arg r : Text} {s s' : Cut} {c : Char}

/-- A step that adds its character to the current argument. -/
theorem Within.outcome_read (h : Within code s i arg (c :: r)) (s' : Cut)
    (hs : s.step limit code i c = .ok (some s')) (hstart : s'.start = s.start)
    (hargs : s'.args = s.args) (hp : 1 ≤ s'.depth) (hd : s'.depth ≤ s.depth + 1)
    (ha : argumentsFrom (s.depth - 1) s.quote arg (c :: r) =
      argumentsFrom (s'.depth - 1) s'.quote (c :: arg) r) :
    Outcome limit code s i c arg r := by
  refine .onward s' (c :: arg) [] hs (h.read hstart hp hd) ?_ ?_
  · rw [hargs, List.append_nil]
  · simp [ha]

theorem step_opening (hq : s.quote = none) (ho : isOpening c) (hl : s.depth + 1 ≤ limit) :
    s.step limit code i c = .ok (some { s with depth := s.depth + 1 }) := by
  have hn : isQuote c = false := isQuote_of_isBracket (isBracket_of_isOpening ho)
  simp only [step, hq, hn, ho, plus_eq hl]
  rfl

/-- A closing bracket closes one inside of the call, or it closes the call. Then it is the last
character of the code exactly if its offset is the last one. -/
theorem Within.outcome_closing (h : Within code s i arg (c :: r)) (hq : s.quote = none)
    (hc : isClosing c) : Outcome limit code s i c arg r := by
  obtain ⟨d, hd⟩ : ∃ d, s.depth = d + 1 := Nat.exists_eq_add_of_le' h.depth_pos
  obtain ⟨o, hp⟩ := Option.isSome_iff_exists.1 hc
  have hn : isQuote c = false := isQuote_of_isBracket (isBracket_of_partner? hp)
  have ho : isOpening c = false := not_isOpening_of_partner? hp
  have hdepth : minus s.depth 1 = .ok d := by rw [minus_eq h.depth_pos, hd, Nat.add_sub_cancel]
  cases d with
  | succ d =>
    refine h.outcome_read { s with depth := d + 1 } ?_ rfl rfl (by simp) (by simp [hd]) ?_
    · simp [step, hq, hn, ho, hc, hdepth, bind, Except.bind]
    · simp [argumentsFrom, hq, hn, ho, hc, hd]
  | zero =>
    -- A bracket is one byte, so that its offset is the last one if no character follows.
    have hsize : c.utf8Size = 1 := by
      rcases isClosing_iff.1 hc with rfl | rfl | rfl <;> rfl
    have hlen := h.length_utf8
    have hlast : minus code.utf8.length 1 = .ok (i + r.utf8.length) := by
      rw [minus_eq (by omega)]
      congr 1
      omega
    by_cases hr : r = []
    · have hz : r.utf8.length = 0 := Text.length_utf8_eq_zero_iff.2 hr
      refine .last { s with depth := 0, args := s.args ++ [Text.trim arg.reverse] } ?_ hr rfl ?_
      · simp [step, hq, hn, ho, hc, hdepth, hlast, hz, h.slice_eq, bind, Except.bind]
      · simp [argumentsFrom, hq, hn, ho, hc, hd, hr]
    · have hz : r.utf8.length ≠ 0 := fun hz => hr (Text.length_utf8_eq_zero_iff.1 hz)
      refine .early ?_ ?_
      · simp [step, hq, hn, ho, hc, hdepth, hlast, hz, bind, Except.bind]
      · simp [argumentsFrom, hq, hn, ho, hc, hd, hr]

theorem Within.outcome_comma (hl : code.utf8.length ≤ limit) (h : Within code s i arg (',' :: r))
    (hq : s.quote = none) (hd : s.depth = 1) : Outcome limit code s i ',' arg r := by
  have hlen := h.length_utf8
  have hsize : ','.utf8Size = 1 := rfl
  have hplus : plus limit i 1 = .ok (i + 1) := plus_eq (by omega)
  have hn : isQuote ',' = false := rfl
  have ho : isOpening ',' = false := rfl
  have hc : isClosing ',' = false := rfl
  refine .onward { s with start := i + 1, args := s.args ++ [Text.trim arg.reverse] } []
    [Text.trim arg.reverse] ?_ (h.next rfl rfl) rfl ?_
  · simp [step, hq, hn, ho, hc, hd, h.slice_eq, hplus, bind, Except.bind]
  · simp [argumentsFrom, hq, hn, ho, hc, hd]

theorem Within.outcome (hl : code.utf8.length ≤ limit) (h : Within code s i arg (c :: r)) :
    Outcome limit code s i c arg r := by
  have hpos := h.depth_pos
  cases hq : s.quote with
  | some q =>
    refine h.outcome_read { s with quote := if c = q then none else some q } ?_ rfl rfl hpos
      (Nat.le_succ _) ?_
    · rw [step, hq]
    · rw [hq, argumentsFrom]
  | none =>
    by_cases hn : isQuote c
    · refine h.outcome_read { s with quote := some c } ?_ rfl rfl hpos (Nat.le_succ _) ?_
      · simp [step, hq, hn]
      · simp [argumentsFrom, hq, hn]
    by_cases ho : isOpening c
    · have hdepth : s.depth + 1 ≤ limit := by
        have hlen := h.length_utf8
        have hle := h.depth_le
        have hsize := c.utf8Size_pos
        omega
      refine h.outcome_read _ (step_opening hq ho hdepth) rfl rfl (Nat.le_add_left ..)
        (Nat.le_refl _) ?_
      simp [argumentsFrom, hq, hn, ho, Nat.sub_add_cancel hpos]
    by_cases hc : isClosing c
    · exact h.outcome_closing hq hc
    by_cases hcomma : c = ',' ∧ s.depth = 1
    · obtain ⟨rfl, hd⟩ := hcomma
      exact h.outcome_comma hl hq hd
    · have hcomma' : ¬ (c = ',' ∧ s.depth - 1 = 0) := by
        rintro ⟨hc, hd⟩
        exact hcomma ⟨hc, by omega⟩
      refine h.outcome_read s ?_ rfl rfl hpos (Nat.le_succ _) ?_
      · simp [step, hq, hn, ho, hc, hcomma]
      · simp [argumentsFrom, hq, hn, ho, hc, hcomma']

/-- A run to the end of the code never faults. It cuts out the arguments, or it ends early and there
are none. -/
theorem Within.exists_run (hl : code.utf8.length ≤ limit) (h : Within code s i arg r) :
    ∃ o, s.run limit code (Text.offsets i r) = .ok o ∧
      o.map Cut.args = (argumentsFrom (s.depth - 1) s.quote arg r).map (s.args ++ ·) := by
  -- The induction is on what is not read yet, along the states that are inside of the call.
  induction r generalizing s i arg with
  | nil => exact ⟨some s, rfl, by simp [argumentsFrom]⟩
  | cons c r ih =>
    rw [Text.offsets]
    cases h.outcome hl with
    | early stops args => exact ⟨none, run_of_stop stops _, by rw [args]; rfl⟩
    | last s' stops atEnd cut args =>
      subst atEnd
      refine ⟨some s', run_of_step stops _, ?_⟩
      rw [args, Option.map_some, cut, Option.map_some]
    | onward s' arg' new goes within cut args =>
      obtain ⟨o, ho, hargs⟩ := ih within
      refine ⟨o, (run_of_step goes _).trans ho, ?_⟩
      rw [hargs, args, cut]
      simp [Function.comp_def]

/-- A run that comes to a further character is inside of the call there. -/
theorem Within.of_run {u v : Text} (hl : code.utf8.length ≤ limit)
    (h : Within code s i arg (u ++ c :: v))
    (hr : run limit code s (Text.offsets i u) = .ok (some s')) :
    ∃ arg', Within code s' (i + u.utf8.length) arg' (c :: v) := by
  induction u generalizing s i arg with
  | nil =>
    obtain rfl : s = s' := by simpa [Text.offsets, run] using hr
    exact ⟨arg, h⟩
  | cons d u ih =>
    rw [Text.offsets] at hr
    cases h.outcome hl with
    | early stops args => simp [run_of_stop stops] at hr
    | last t stops atEnd cut args =>
      -- The call ends with the code, but there is a character left.
      simp at atEnd
    | onward t arg' new goes within cut args =>
      rw [run_of_step goes] at hr
      rw [Text.length_utf8_cons, ← Nat.add_assoc]
      exact ih within hr

end Steps

section Calls

variable {limit : Nat} {code head r : Text}

theorem opening?_of_not_mem (h : '(' ∉ code) : opening? code = none := by
  rw [opening?, Option.map_eq_none_iff, List.find?_eq_none]
  intro e he hc
  rw [beq_iff_eq] at hc
  exact h (hc ▸ Text.snd_mem_of_mem_offsets he)

theorem opening?_append (h : '(' ∉ head) (r : Text) :
    opening? (head ++ '(' :: r) = some head.utf8.length := by
  have hn : (Text.offsets 0 head).find? (·.2 == '(') = none := by
    simpa [opening?] using opening?_of_not_mem h
  rw [opening?, Text.offsets_append, List.find?_append, hn, Text.offsets, Nat.zero_add]
  rfl

theorem dropWhile_offsets_append (head r : Text) :
    (Text.offsets 0 (head ++ r)).dropWhile (·.1 < head.utf8.length) =
      Text.offsets head.utf8.length r := by
  rw [Text.offsets_append, Nat.zero_add, List.dropWhile_append_of_pos]
  · cases r with
    | nil => rfl
    | cons c r => rw [Text.offsets, List.dropWhile_cons_of_neg (by simp)]
  · intro e he
    simpa using Text.lt_of_mem_offsets he

/-- The first parenthesis leads into the call. -/
theorem step_first (hl : 1 ≤ limit) (start i : Nat) :
    step limit code { start := start } i '(' = .ok (some { start := start, depth := 1 }) :=
  step_opening rfl rfl hl

theorem within_first (head r : Text) :
    Within (head ++ '(' :: r) { start := head.utf8.length + 1, depth := 1 }
      (head.utf8.length + 1) [] r := by
  have hn : head.utf8.length + 1 = (head ++ ['(']).utf8.length := by
    rw [Text.length_utf8_append]
    rfl
  refine ⟨Nat.le_refl 1, Nat.le_add_left .., head ++ ['('], by simp, hn, ?_⟩
  simpa using hn

theorem succ_le_of_call (hl : (head ++ '(' :: r).utf8.length ≤ limit) :
    head.utf8.length + 1 ≤ limit := by
  have hpos := '('.utf8Size_pos
  rw [Text.length_utf8_append, Text.length_utf8_cons] at hl
  omega

theorem exists_run (hl : (head ++ '(' :: r).utf8.length ≤ limit) :
    ∃ o, run limit (head ++ '(' :: r) { start := head.utf8.length + 1 }
        (Text.offsets head.utf8.length ('(' :: r)) = .ok o ∧
      o.map Cut.args = argumentsFrom 0 none [] r := by
  have hn := succ_le_of_call hl
  obtain ⟨o, ho, hargs⟩ := (within_first head r).exists_run hl
  refine ⟨o, (run_of_step (step_first (by omega) ..) _).trans ho, ?_⟩
  simpa using hargs

/-- A cut comes to the first parenthesis, and from then on it is inside of the call. -/
theorem Reaches.cases {s : Cut} {i : Nat} {c : Char} (hl : code.utf8.length ≤ limit)
    (h : Reaches limit code s i c) :
    (c = '(' ∧ s.depth = 0) ∨ ∃ arg r, Within code s i arg (c :: r) := by
  obtain ⟨opening, read, rest, ho, hd, hr⟩ := h
  by_cases hm : '(' ∈ code
  · obtain ⟨head, r, rfl, hp⟩ := List.eq_append_cons_of_mem hm
    rw [opening?_append hp] at ho
    obtain rfl := Option.some.inj ho
    rw [dropWhile_offsets_append] at hd
    obtain ⟨u, v, hu, rfl, rfl⟩ := Text.exists_of_offsets_eq hd
    cases u with
    | nil =>
      obtain ⟨rfl, -⟩ := List.cons.inj hu
      obtain rfl := Option.some.inj (Except.ok.inj hr)
      exact .inl ⟨rfl, rfl⟩
    | cons d u =>
      obtain ⟨rfl, rfl⟩ := List.cons.inj hu
      have hn := succ_le_of_call hl
      rw [Text.offsets, run_of_step (step_first (by omega) ..)] at hr
      obtain ⟨arg, hw⟩ := (within_first head (u ++ c :: v)).of_run hl hr
      refine .inr ⟨arg, v, ?_⟩
      rwa [Text.length_utf8_cons, ← Nat.add_assoc]
  · rw [opening?_of_not_mem hm] at ho
    contradiction

end Calls

end Cut

section Explode

variable {limit : Nat} {code head r : Text}

theorem bne_of_not_mem (h : '(' ∉ head) : ∀ c ∈ head, c != '(' := by
  intro c hc
  rw [bne_iff_ne]
  rintro rfl
  exact h hc

theorem explode_of_not_mem (h : '(' ∉ code) : explode code = none := by
  have hd : code.dropWhile (· != '(') = [] := List.dropWhile_eq_nil_iff.2 (bne_of_not_mem h)
  rw [explode, hd]

theorem explode_append (h : '(' ∉ head) (r : Text) :
    explode (head ++ '(' :: r) =
      if head = [] ∨ (head ++ '(' :: r).getLast? ≠ some ')' then none
      else (argumentsFrom 0 none [] r).bind fun args =>
        if (args.filter (!·.isEmpty)).isEmpty then none
        else some (head, args.filter (!·.isEmpty)) := by
  have hh := bne_of_not_mem h
  have hs : ∀ c ∈ ('(' :: r).head?, (c != '(') = false := by simp
  rw [explode, Text.takeWhile_append_of_stop hh hs, Text.dropWhile_append_of_stop hh hs]
  simp only [Bool.or_eq_true, List.isEmpty_iff, bne_iff_ne]
  congr 1
  cases argumentsFrom 0 none [] r <;> rfl

/-- The cuts at byte offsets never fault, and they give the head and the arguments of the call. -/
theorem cutCall_eq (hl : code.utf8.length ≤ limit) : cutCall limit code = .ok (explode code) := by
  by_cases hm : '(' ∈ code
  · obtain ⟨head, r, rfl, hp⟩ := List.eq_append_cons_of_mem hm
    rw [cutCall, Cut.opening?_append hp, explode_append hp]
    simp only [Text.length_utf8_eq_zero_iff]
    split_ifs with hg
    · rfl
    have hslice : Cut.slice (head ++ '(' :: r) 0 (Text.utf8 head).length = .ok head :=
      Cut.slice_append [] head ('(' :: r)
    obtain ⟨o, ho, hargs⟩ := Cut.exists_run hl
    rw [Cut.plus_eq (Cut.succ_le_of_call hl), Cut.dropWhile_offsets_append, ← hargs]
    cases o with
    | none => simp [ho, bind, Except.bind]
    | some s =>
      simp only [ho, hslice, bind, Except.bind, Option.map_some, Option.bind_some]
      split_ifs <;> rfl
  · rw [cutCall, Cut.opening?_of_not_mem hm, explode_of_not_mem hm]

/-- A call that is broken up has a head, and it has arguments of which none is empty. -/
theorem ne_nil_of_explode {args : List Text} (h : explode code = some (head, args)) :
    head ≠ [] ∧ args ≠ [] ∧ ∀ arg ∈ args, arg ≠ [] := by
  by_cases hm : '(' ∈ code
  · obtain ⟨front, r, rfl, hp⟩ := List.eq_append_cons_of_mem hm
    rw [explode_append hp] at h
    split_ifs at h with hg
    obtain ⟨as, -, h⟩ := Option.bind_eq_some_iff.1 h
    split_ifs at h with he
    obtain ⟨rfl, rfl⟩ := Prod.mk.inj (Option.some.inj h)
    refine ⟨fun hf => hg (.inl hf), fun hn => he (List.isEmpty_iff.2 hn), ?_⟩
    rintro arg ha rfl
    simpa using (List.mem_filter.1 ha).2
  · rw [explode_of_not_mem hm] at h
    contradiction

end Explode

/-- The breaking up of a call never faults, whatever the code is, if the counters can hold its
length. Where a bracket lowers the depth, the depth is at least one and the code is not empty.
Inside of the call the current argument does not start behind the offset that is read, and both
offsets are boundaries of characters. The outcome is that of `explode`: nothing, or a head that is
not empty with arguments of which none is empty. -/
theorem explode_faultless (code : Text) (limit : Nat) (hl : code.utf8.length ≤ limit) :
    cutCall limit code = .ok (explode code) ∧
    (∀ s i c, Cut.Reaches limit code s i c →
      (s.quote = none → isClosing c → 1 ≤ s.depth ∧ 1 ≤ code.utf8.length) ∧
      (1 ≤ s.depth → s.start ≤ i ∧ code.IsBoundary s.start ∧ code.IsBoundary i)) ∧
    ∀ head args, explode code = some (head, args) →
      head ≠ [] ∧ args ≠ [] ∧ ∀ arg ∈ args, arg ≠ [] := by
  refine ⟨cutCall_eq hl, fun s i c h => ?_, fun head args => ne_nil_of_explode⟩
  rcases h.cases hl with ⟨rfl, hd⟩ | ⟨arg, r, hw⟩
  · exact ⟨fun _ hc => absurd hc (by decide), fun hp => by omega⟩
  · have hlen := hw.length_utf8
    have hpos := c.utf8Size_pos
    exact ⟨fun _ _ => ⟨hw.depth_pos, by omega⟩, fun _ => hw.boundaries⟩

/-- A call with brackets that do not match, characters of two bytes and a backslash in a string. -/
def mixedCall : Text := "ü(é[\x7d, 'a\\', b)".toList

theorem explode_faultless_mixedCall :
    mixedCall.utf8.length ≤ 17 ∧
      cutCall 17 mixedCall =
        .ok (some ("ü".toList, ["é[\x7d".toList, "'a\\'".toList, "b".toList])) ∧
      Cut.Reaches 17 mixedCall { depth := 2, start := 3 } 6 '\x7d' ∧
      mixedCall.IsBoundary 3 ∧ mixedCall.IsBoundary 6 := by
  have hl : mixedCall.utf8.length ≤ 17 := by decide +kernel
  have he : explode mixedCall =
      some ("ü".toList, ["é[\x7d".toList, "'a\\'".toList, "b".toList]) := by
    decide +kernel
  have hr : Cut.Reaches 17 mixedCall { depth := 2, start := 3 } 6 '\x7d' :=
    ⟨2, [(2, '('), (3, 'é'), (5, '[')], Text.offsets 7 ", 'a\\', b)".toList, by decide +kernel,
      by decide +kernel, rfl⟩
  obtain ⟨hcut, hstates, -⟩ := explode_faultless mixedCall 17 hl
  obtain ⟨hclosing, hinside⟩ := hstates _ _ _ hr
  obtain ⟨hdepth, -⟩ := hclosing rfl rfl
  obtain ⟨-, hstart, hend⟩ := hinside hdepth
  rw [he] at hcut
  exact ⟨hl, hcut, hr, hstart, hend⟩

end Tidy

end FencedCode
