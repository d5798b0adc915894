import FencedCode.Format.Tidy
import Mathlib.Data.List.Basic

/-! The lines of Python-like code: brackets and other characters, string literals, comments. A line
is read in one way only, and the check of brackets is a run over what is found in that reading. -/
namespace FencedCode.Tidy

def isBracket (c : Char) : Bool := isOpening c || isClosing c

/-- What may stand in a string: a backslash with any character after it, and all characters but the
quote and the backslash. -/
inductive Inside (quote : Char) : Text → Prop
  | nil : Inside quote []
  | escape {c : Char} {t : Text} (rest : Inside quote t) : Inside quote ('\\' :: c :: t)
  | plain {c : Char} {t : Text} (slash : c ≠ '\\') (delimiter : c ≠ quote)
      (rest : Inside quote t) : Inside quote (c :: t)

inductive IsLiteral : Text → Prop
  | mk {quote : Char} {t : Text} (delimiter : isQuote quote) (inside : Inside quote t) :
      IsLiteral (quote :: (t ++ [quote]))

/-- A string without its closing quote. A backslash may be its last character. -/
inductive IsOpenString : Text → Prop
  | plain {quote : Char} {t : Text} (delimiter : isQuote quote) (inside : Inside quote t) :
      IsOpenString (quote :: t)
  | slash {quote : Char} {t : Text} (delimiter : isQuote quote) (inside : Inside quote t) :
      IsOpenString (quote :: (t ++ ['\\']))

/-- What counts in a line: its brackets, and a string that the end of the line leaves open. Lines
and columns count from one. -/
inductive Mark
  | bracket (c : Char) (line column : Nat)
  | openString (line column : Nat)
  deriving DecidableEq

def Mark.bracket? : Mark → Option Char
  | .bracket c _ _ => some c
  | .openString _ _ => none

/-- The brackets among marks, without their places. -/
def word (ms : List Mark) : Text := ms.filterMap Mark.bracket?

/-- Code after `k` characters of line `n`, with its marks: complete literals, and characters that
start neither a literal nor a comment. -/
inductive Code (n : Nat) : Nat → Text → List Mark → Prop
  | nil {k : Nat} : Code n k [] []
  | literal {k : Nat} {w t : Text} {ms : List Mark} (h : IsLiteral w)
      (rest : Code n (k + w.length) t ms) : Code n k (w ++ t) ms
  | bracket {k : Nat} {c : Char} {t : Text} {ms : List Mark} (h : isBracket c)
      (rest : Code n (k + 1) t ms) : Code n k (c :: t) (.bracket c n (k + 1) :: ms)
  | plain {k : Nat} {c : Char} {t : Text} {ms : List Mark} (sign : c ≠ '#')
      (quote : isQuote c = false) (bracket : isBracket c = false) (rest : Code n (k + 1) t ms) :
      Code n k (c :: t) ms

/-- Line `n` with its marks: code, and perhaps a comment or a string that does not end. -/
inductive ReadsLine (n : Nat) : Text → List Mark → Prop
  | code {t : Text} {ms : List Mark} (h : Code n 0 t ms) : ReadsLine n t ms
  | comment {t u : Text} {ms : List Mark} (h : Code n 0 t ms) : ReadsLine n (t ++ '#' :: u) ms
  | openString {t u : Text} {ms : List Mark} (h : Code n 0 t ms) (string : IsOpenString u) :
      ReadsLine n (t ++ u) (ms ++ [.openString n (t ++ u).length])

/-- The lines from line `n` on, with their marks in reading order. -/
inductive ReadsLines : Nat → List Text → List Mark → Prop
  | nil {n : Nat} : ReadsLines n [] []
  | cons {n : Nat} {l : Text} {ls : List Text} {ms ms' : List Mark} (first : ReadsLine n l ms)
      (rest : ReadsLines (n + 1) ls ms') : ReadsLines n (l :: ls) (ms ++ ms')

@[simp] theorem word_nil : word [] = [] := rfl

@[simp] theorem word_bracket (c : Char) (l k : Nat) (ms : List Mark) :
    word (.bracket c l k :: ms) = c :: word ms := rfl

@[simp] theorem word_append (ms ms' : List Mark) : word (ms ++ ms') = word ms ++ word ms' :=
  List.filterMap_append

section Characters

variable {c : Char}

theorem isQuote_iff : isQuote c ↔ c = '\'' ∨ c = '"' := by simp [isQuote]

theorem isOpening_iff : isOpening c ↔ c = '(' ∨ c = '[' ∨ c = '\x7b' := by
  simp [isOpening, or_assoc]

theorem isClosing_iff : isClosing c ↔ c = ')' ∨ c = ']' ∨ c = '\x7d' := by
  rw [isClosing, partner?]
  split_ifs <;> simp_all

theorem ne_slash_of_isQuote (h : isQuote c) : c ≠ '\\' := by
  rcases isQuote_iff.1 h with rfl | rfl <;> decide

theorem ne_sign_of_isQuote (h : isQuote c) : c ≠ '#' := by
  rcases isQuote_iff.1 h with rfl | rfl <;> decide

theorem isBracket_of_isOpening (h : isOpening c) : isBracket c := by rw [isBracket, h, Bool.true_or]

theorem partner?_of_isOpening (h : isOpening c) : partner? c = none := by
  rcases isOpening_iff.1 h with rfl | rfl | rfl <;> rfl

theorem isOpening_of_partner? {o : Char} (h : partner? c = some o) : isOpening o := by
  unfold partner? at h
  split_ifs at h <;> obtain rfl := Option.some.inj h <;> rfl

theorem not_isOpening_of_partner? {o : Char} (h : partner? c = some o) : isOpening c = false := by
  by_contra hc
  rw [Bool.not_eq_false] at hc
  rw [partner?_of_isOpening hc] at h
  contradiction

theorem isBracket_of_partner? {o : Char} (h : partner? c = some o) : isBracket c := by
  rw [isBracket, isClosing, h, Option.isSome_some, Bool.or_true]

theorem isBracket_iff : isBracket c ↔ isOpening c ∨ ∃ o, partner? c = some o := by
  rw [isBracket, Bool.or_eq_true, isClosing, Option.isSome_iff_exists]

theorem isQuote_of_isBracket (h : isBracket c) : isQuote c = false := by
  by_contra hq
  rw [Bool.not_eq_false] at hq
  rcases isQuote_iff.1 hq with rfl | rfl <;> contradiction

theorem ne_sign_of_isBracket (h : isBracket c) : c ≠ '#' := by
  rintro rfl
  contradiction

/-- White space neither starts a literal or a comment nor is a bracket or a comma. -/
theorem plain_of_isBlank (h : isBlank c) :
    c ≠ '#' ∧ c ≠ ',' ∧ isQuote c = false ∧ isBracket c = false := by
  have hn : ∀ d, isBlank d = false → c ≠ d := by
    rintro d hd rfl
    rw [h] at hd
    contradiction
  refine ⟨hn _ (by decide), hn _ (by decide), ?_, ?_⟩
  · rw [isQuote]
    simp [hn '\'' (by decide), hn '"' (by decide)]
  · rw [← Bool.not_eq_true, isBracket, Bool.or_eq_true, isOpening_iff, isClosing_iff]
    simp [hn '(' (by decide), hn '[' (by decide), hn '\x7b' (by decide), hn ')' (by decide),
      hn ']' (by decide), hn '\x7d' (by decide)]

/-- Every opening bracket is the partner of a closing one. -/
theorem exists_partner? {o : Char} (h : isOpening o) : ∃ c, partner? c = some o := by
  rcases isOpening_iff.1 h with rfl | rfl | rfl
  · exact ⟨')', rfl⟩
  · exact ⟨']', rfl⟩
  · exact ⟨'\x7d', rfl⟩

end Characters

section Strings

variable {quote : Char} {t : Text}

/-- A text after an opening quote has the closing one, or it is all inside of the string. -/
theorem inside_cases (quote : Char) (t : Text) :
    (∃ i r, t = i ++ quote :: r ∧ Inside quote i) ∨ Inside quote t ∨
      ∃ i, t = i ++ ['\\'] ∧ Inside quote i := by
  induction hl : t.length using Nat.strongRecOn generalizing t with
  | ind l ih =>
    match t with
    | [] => exact .inr (.inl .nil)
    | c :: r =>
      by_cases hq : c = quote
      · exact .inl ⟨[], r, by rw [hq, List.nil_append], .nil⟩
      by_cases hs : c = '\\'
      · subst hs
        match r with
        | [] => exact .inr (.inr ⟨[], rfl, .nil⟩)
        | d :: r =>
          have hr : r.length < l := by
            rw [← hl, List.length_cons, List.length_cons]
            omega
          rcases ih _ hr r rfl with ⟨i, u, rfl, hi⟩ | hi | ⟨i, rfl, hi⟩
          · exact .inl ⟨_, u, rfl, hi.escape⟩
          · exact .inr (.inl hi.escape)
          · exact .inr (.inr ⟨_, rfl, hi.escape⟩)
      · have hr : r.length < l := by
          rw [← hl, List.length_cons]
          omega
        rcases ih _ hr r rfl with ⟨i, u, rfl, hi⟩ | hi | ⟨i, rfl, hi⟩
        · exact .inl ⟨_, u, rfl, hi.plain hs hq⟩
        · exact .inr (.inl (hi.plain hs hq))
        · exact .inr (.inr ⟨_, rfl, hi.plain hs hq⟩)

theorem IsLiteral.exists_cons (h : IsLiteral t) : ∃ c r, t = c :: r ∧ isQuote c := by
  obtain ⟨hd, -⟩ := h
  exact ⟨_, _, rfl, hd⟩

/-- A literal ends as it begins, in a quote. -/
theorem IsLiteral.reverse_eq (h : IsLiteral t) : ∃ c r, t.reverse = c :: r ∧ isQuote c := by
  obtain ⟨hd, -⟩ := h
  rename_i quote t
  refine ⟨quote, t.reverse ++ [quote], ?_, hd⟩
  rw [List.reverse_cons, List.reverse_append]
  rfl

end Strings

namespace Code

variable {n k : Nat} {t u : Text} {ms ms' : List Mark}

theorem append (h : Code n k t ms) (h' : Code n (k + t.length) u ms') :
    Code n k (t ++ u) (ms ++ ms') := by
  induction h with
  | nil => exact h'
  | @literal k w t ms hw _ ih =>
    rw [List.length_append, ← Nat.add_assoc] at h'
    rw [List.append_assoc]
    exact .literal hw (ih h')
  | @bracket k c t ms hc _ ih =>
    rw [List.length_cons, Nat.add_comm t.length, ← Nat.add_assoc] at h'
    exact .bracket hc (ih h')
  | @plain k c t ms hs hq hb _ ih =>
    rw [List.length_cons, Nat.add_comm t.length, ← Nat.add_assoc] at h'
    exact .plain hs hq hb (ih h')

/-- The same code at another place has the same brackets. -/
theorem move (h : Code n k t ms) (n' k' : Nat) : ∃ ms', Code n' k' t ms' ∧ word ms' = word ms := by
  induction h generalizing k' with
  | nil => exact ⟨[], .nil, rfl⟩
  | @literal k w t ms hw _ ih =>
    obtain ⟨ms', hc, he⟩ := ih (k' + w.length)
    exact ⟨ms', .literal hw hc, he⟩
  | @bracket k c t ms hb _ ih =>
    obtain ⟨ms', hc, he⟩ := ih (k' + 1)
    exact ⟨.bracket c n' (k' + 1) :: ms', .bracket hb hc, by rw [word_bracket, word_bracket, he]⟩
  | plain hs hq hb _ ih =>
    obtain ⟨ms', hc, he⟩ := ih (k' + 1)
    exact ⟨ms', .plain hs hq hb hc, he⟩

/-- Code holds no string that is left open. -/
theorem closed (h : Code n k t ms) : ∀ m ∈ ms, m.bracket?.isSome := by
  induction h with
  | nil => simp
  | literal _ _ ih => exact ih
  | bracket _ _ ih => exact List.forall_mem_cons.2 ⟨rfl, ih⟩
  | plain _ _ _ _ ih => exact ih

end Code

/-- The marks of line `n` after `k` characters. -/
def marksFrom (n : Nat) : Nat → Mode → Text → List Mark
  | _, .code, [] => []
  | k, .string _ _, [] => [.openString n k]
  | k, .string q escaped, c :: r => marksFrom n (k + 1) (Mode.inString q escaped c) r
  | k, .code, c :: r =>
    if c = '#' then []
    else if isQuote c then marksFrom n (k + 1) (.string c false) r
    else if isBracket c then .bracket c n (k + 1) :: marksFrom n (k + 1) .code r
    else marksFrom n (k + 1) .code r

/-- One mark changes the stack of open brackets, or it is a fault. -/
def step (stack : List OpenBracket) : Mark → Except FormatError (List OpenBracket)
  | .openString l k => .error (.unparsable l k "unterminated string literal")
  | .bracket c l k =>
    if isOpening c then .ok (⟨c, l, k⟩ :: stack)
    else match stack with
      | o :: stack =>
        if partner? c = some o.bracket then .ok stack
        else .error (.unparsable l k s!"unmatched '{c}'")
      | [] => .error (.unparsable l k s!"unmatched '{c}'")

/-- The stack of open brackets after marks. -/
def follow (stack : List OpenBracket) (ms : List Mark) : Except FormatError (List OpenBracket) :=
  ms.foldlM step stack

section Follow

variable {stack : List OpenBracket} {ms ms' : List Mark}

@[simp] theorem follow_nil (stack : List OpenBracket) : follow stack [] = .ok stack := rfl

theorem follow_cons (stack : List OpenBracket) (m : Mark) (ms : List Mark) :
    follow stack (m :: ms) = step stack m >>= fun s => follow s ms := List.foldlM_cons

theorem step_of_isOpening {c : Char} (h : isOpening c) (l k : Nat) :
    step stack (.bracket c l k) = .ok (⟨c, l, k⟩ :: stack) := if_pos h

theorem step_of_closing {c : Char} (h : isOpening c = false) (o : OpenBracket) (l k : Nat) :
    step (o :: stack) (.bracket c l k) =
      if partner? c = some o.bracket then .ok stack
      else .error (.unparsable l k s!"unmatched '{c}'") := by
  rw [step.eq_def]
  simp only [h, if_neg Bool.false_ne_true]

theorem step_of_closing_nil {c : Char} (h : isOpening c = false) (l k : Nat) :
    step [] (.bracket c l k) = .error (.unparsable l k s!"unmatched '{c}'") := by
  rw [step.eq_def]
  simp only [h, if_neg Bool.false_ne_true]

theorem follow_append (stack : List OpenBracket) (ms ms' : List Mark) :
    follow stack (ms ++ ms') = follow stack ms >>= fun s => follow s ms' := List.foldlM_append

theorem follow_cons_of_ok {m : Mark} {s : List OpenBracket} (h : step stack m = .ok s) :
    follow stack (m :: ms) = follow s ms := by
  rw [follow_cons, h]
  rfl

theorem follow_append_of_ok {s : List OpenBracket} (h : follow stack ms = .ok s) :
    follow stack (ms ++ ms') = follow s ms' := by
  rw [follow_append, h]
  rfl

end Follow

section Scan

variable {n k : Nat} {q : Char} {t : Text} {ms : List Mark}

/-- The check of a line follows its marks. -/
theorem scanLine_eq_follow (n k : Nat) (mode : Mode) (stack : List OpenBracket) (t : Text) :
    scanLine n k mode stack t = follow stack (marksFrom n k mode t) := by
  fun_induction marksFrom n k mode t generalizing stack with
  | case1 => rw [scanLine, follow_nil]
  | case2 => rfl
  | case3 k q escaped c r ih => rw [scanLine, ih]
  | case4 k r => rw [scanLine, if_pos rfl, follow_nil]
  | case5 k c r hs hq ih => rw [scanLine, if_neg hs, if_pos hq, ih]
  | case6 k c r hs hq hb ih =>
    rw [scanLine, if_neg hs, if_neg hq, follow_cons]
    rcases isBracket_iff.1 hb with ho | ⟨o, hp⟩
    · rw [if_pos ho, step_of_isOpening ho, ih]
      rfl
    · have ho := not_isOpening_of_partner? hp
      rw [ho, if_neg Bool.false_ne_true, hp]
      cases stack with
      | nil =>
        rw [step_of_closing_nil ho]
        rfl
      | cons b stack =>
        rw [step_of_closing ho, hp]
        by_cases hb : b.bracket = o
        · simp only [hb, if_true, ih]
          rfl
        · simp only [if_neg hb, Option.some.injEq, if_neg (Ne.symm hb)]
          rfl
  | case7 k c r hs hq hb ih =>
    have hb' : isOpening c = false ∧ partner? c = none := by simpa [isBracket, isClosing] using hb
    rw [scanLine, if_neg hs, if_neg hq, hb'.1, if_neg Bool.false_ne_true, hb'.2, ih]

theorem marksFrom_inside {i : Text} (h : Inside q i) (k : Nat) (r : Text) :
    marksFrom n k (.string q false) (i ++ r) = marksFrom n (k + i.length) (.string q false) r := by
  induction h generalizing k with
  | nil => rfl
  | @escape c t _ ih =>
    have he : k + 1 + 1 + t.length = k + ('\\' :: c :: t).length := by
      rw [List.length_cons, List.length_cons]
      omega
    rw [List.cons_append, List.cons_append, marksFrom, Mode.inString, if_neg Bool.false_ne_true,
      if_pos rfl, marksFrom, Mode.inString, if_pos rfl, ih, he]
  | @plain c t hs hd _ ih =>
    have he : k + 1 + t.length = k + (c :: t).length := by
      rw [List.length_cons]
      omega
    rw [List.cons_append, marksFrom, Mode.inString, if_neg Bool.false_ne_true, if_neg hs, if_neg hd,
      ih, he]

theorem marksFrom_quote (hq : isQuote q) (k : Nat) (r : Text) :
    marksFrom n k .code (q :: r) = marksFrom n (k + 1) (.string q false) r := by
  rw [marksFrom, if_neg (ne_sign_of_isQuote hq), if_pos hq]

theorem marksFrom_literal {w : Text} (h : IsLiteral w) (k : Nat) (r : Text) :
    marksFrom n k .code (w ++ r) = marksFrom n (k + w.length) .code r := by
  obtain ⟨hq, hi⟩ := h
  rename_i quote t
  have hs := ne_slash_of_isQuote hq
  have he : k + 1 + t.length + 1 = k + (quote :: (t ++ [quote])).length := by
    rw [List.length_cons, List.length_append, List.length_singleton]
    omega
  rw [List.cons_append, marksFrom_quote hq, List.append_assoc, marksFrom_inside hi,
    List.singleton_append, marksFrom, Mode.inString, if_neg Bool.false_ne_true, if_neg hs,
    if_pos rfl, he]

theorem marksFrom_openString {u : Text} (h : IsOpenString u) (k : Nat) :
    marksFrom n k .code u = [.openString n (k + u.length)] := by
  cases h with
  | @plain quote t hq hi =>
    have he : k + 1 + t.length = k + (quote :: t).length := by
      rw [List.length_cons]
      omega
    rw [marksFrom_quote hq, ← List.append_nil t, marksFrom_inside hi,
      marksFrom, List.append_nil, he]
  | @slash quote t hq hi =>
    have he : k + 1 + t.length + 1 = k + (quote :: (t ++ ['\\'])).length := by
      rw [List.length_cons, List.length_append, List.length_singleton]
      omega
    rw [marksFrom_quote hq, marksFrom_inside hi, marksFrom, Mode.inString,
      if_neg Bool.false_ne_true, if_pos rfl, marksFrom, he]

theorem Code.marksFrom_append (h : Code n k t ms) (r : Text) :
    marksFrom n k .code (t ++ r) = ms ++ marksFrom n (k + t.length) .code r := by
  induction h with
  | nil => rfl
  | literal hw _ ih =>
    rw [List.append_assoc, marksFrom_literal hw, ih, List.length_append, Nat.add_assoc]
  | @bracket k c t ms hc _ ih =>
    rw [List.cons_append, marksFrom, if_neg (ne_sign_of_isBracket hc), isQuote_of_isBracket hc,
      if_neg Bool.false_ne_true, if_pos hc, ih, List.length_cons, Nat.add_comm t.length,
      Nat.add_assoc, List.cons_append]
  | @plain k c t ms hs hq hb _ ih =>
    rw [List.cons_append, marksFrom, if_neg hs, hq, if_neg Bool.false_ne_true, hb,
      if_neg Bool.false_ne_true, ih, List.length_cons, Nat.add_comm t.length, Nat.add_assoc]

/-- Every text is code, or code and a comment, or code and a string that does not end. -/
theorem exists_code (n k : Nat) (t : Text) :
    ∃ c u ms, t = c ++ u ∧ Code n k c ms ∧ (u = [] ∨ (∃ v, u = '#' :: v) ∨ IsOpenString u) := by
  induction hl : t.length using Nat.strongRecOn generalizing k t with
  | ind l ih =>
    match t with
    | [] => exact ⟨[], [], [], rfl, .nil, .inl rfl⟩
    | c :: r =>
      have hr : r.length < l := by
        rw [← hl, List.length_cons]
        omega
      by_cases hs : c = '#'
      · exact ⟨[], c :: r, [], rfl, .nil, .inr (.inl ⟨r, by rw [hs]⟩)⟩
      by_cases hq : isQuote c
      · rcases inside_cases c r with ⟨i, v, rfl, hi⟩ | hi | ⟨i, rfl, hi⟩
        · have hv : v.length < l := by
            rw [List.length_append, List.length_cons] at hr
            omega
          obtain ⟨d, u, ms, rfl, hd, hu⟩ := ih _ hv (k + (c :: (i ++ [c])).length) v rfl
          exact ⟨c :: (i ++ [c]) ++ d, u, ms, by simp, .literal (.mk hq hi) hd, hu⟩
        · exact ⟨[], c :: r, [], rfl, .nil, .inr (.inr (.plain hq hi))⟩
        · exact ⟨[], _, [], rfl, .nil, .inr (.inr (.slash hq hi))⟩
      · obtain ⟨d, u, ms, rfl, hd, hu⟩ := ih _ hr (k + 1) r rfl
        by_cases hb : isBracket c
        · exact ⟨c :: d, u, _, rfl, .bracket hb hd, hu⟩
        · rw [Bool.not_eq_true] at hq hb
          exact ⟨c :: d, u, ms, rfl, .plain hs hq hb hd, hu⟩

/-- A line has exactly one reading. -/
theorem readsLine_iff : ReadsLine n t ms ↔ ms = marksFrom n 0 .code t := by
  constructor
  · intro h
    cases h with
    | code h =>
      have hm := h.marksFrom_append []
      rw [List.append_nil, marksFrom, List.append_nil] at hm
      exact hm.symm
    | comment h => rw [h.marksFrom_append, marksFrom, if_pos rfl, List.append_nil]
    | openString h hs =>
      rw [h.marksFrom_append, marksFrom_openString hs, List.length_append, Nat.zero_add]
  · rintro rfl
    obtain ⟨c, u, ms, rfl, hc, rfl | ⟨v, rfl⟩ | hu⟩ := exists_code n 0 t
    · rw [hc.marksFrom_append, marksFrom, List.append_nil, List.append_nil]
      exact .code hc
    · rw [hc.marksFrom_append, marksFrom, if_pos rfl, List.append_nil]
      exact .comment hc
    · rw [hc.marksFrom_append, marksFrom_openString hu, Nat.zero_add, ← List.length_append]
      exact .openString hc hu

/-- The marks of the lines from line `n` on. -/
def marksOf (n : Nat) : List Text → List Mark
  | [] => []
  | l :: ls => marksFrom n 0 .code l ++ marksOf (n + 1) ls

/-- Lines have exactly one reading. -/
theorem readsLines_iff {ls : List Text} : ReadsLines n ls ms ↔ ms = marksOf n ls := by
  constructor
  · intro h
    induction h with
    | nil => rfl
    | cons first _ ih => rw [marksOf, readsLine_iff.1 first, ih]
  · rintro rfl
    induction ls generalizing n with
    | nil => exact .nil
    | cons l ls ih => exact .cons (readsLine_iff.2 rfl) ih

end Scan

/-- The statement that a line begins, or the one that it continues. -/
def Statement.grow (current : Option Statement) (line : Text) : Statement :=
  match current with
  | some s => s.extend line
  | none => .ofLine line

theorem statementsFrom_cons (n : Nat) (stack : List OpenBracket) (current : Option Statement)
    (l : Text) (ls : List Text) :
    statementsFrom n stack current (l :: ls) =
      scanLine n 0 .code stack l >>= fun s =>
        if s.isEmpty then
          statementsFrom (n + 1) [] none ls >>= fun more => .ok (Statement.grow current l :: more)
        else statementsFrom (n + 1) s (some (Statement.grow current l)) ls := by
  cases current <;> rfl

end FencedCode.Tidy
