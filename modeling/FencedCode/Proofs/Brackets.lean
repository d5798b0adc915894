import FencedCode.Proofs.CodeLines
import FencedCode.Proofs.Results
import Mathlib.Data.List.Induction

/-! Brackets that match. The stack of open brackets accepts exactly the balanced words, and where it
refuses a source, the error names the first place at which no balanced word can come of it. -/
namespace FencedCode.Tidy

/-- The words in which every bracket has its partner. -/
inductive Balanced : Text → Prop
  | nil : Balanced []
  | pair {o c : Char} {u v : Text} (partner : partner? c = some o) (inner : Balanced u)
      (rest : Balanced v) : Balanced (o :: (u ++ c :: v))

/-- The beginnings of balanced words. -/
def Viable (w : Text) : Prop := ∃ v, Balanced (w ++ v)

/-- A word that comes after an opening bracket closes it by the partner behind a balanced part. -/
def Closes (o : Char) (w : Text) : Prop :=
  ∃ u c v, w = u ++ c :: v ∧ Balanced u ∧ partner? c = some o

/-- No line ends inside a string. -/
def Terminated (ms : List Mark) : Prop := ∀ m ∈ ms, m.bracket?.isSome

/-- What is wrong with marks: the first closing bracket at which the word is not viable any more or
the first open string, whichever comes first; and without either, the first bracket that is never
closed. -/
inductive Fault (ms : List Mark) : FormatError → Prop
  | unmatched {us vs : List Mark} {c : Char} {l k : Nat} (split : ms = us ++ .bracket c l k :: vs)
      (strings : Terminated us) (viable : Viable (word us)) (closing : isClosing c)
      (stuck : ¬ Viable (word us ++ [c])) : Fault ms (.unparsable l k s!"unmatched '{c}'")
  | openString {us vs : List Mark} {l k : Nat} (split : ms = us ++ .openString l k :: vs)
      (strings : Terminated us) (viable : Viable (word us)) :
      Fault ms (.unparsable l k "unterminated string literal")
  | unclosed {us vs : List Mark} {o : Char} {l k : Nat} (split : ms = us ++ .bracket o l k :: vs)
      (strings : Terminated ms) (viable : Viable (word ms)) (opening : isOpening o)
      (never : ¬ Closes o (word vs))
      (first : ∀ us₁ b i j us₂, us = us₁ ++ .bracket b i j :: us₂ → isOpening b →
        Closes b (word (us₂ ++ .bracket o l k :: vs))) :
      Fault ms (.unparsable l k s!"'{o}' was never closed")

section Words

variable {o : Char} {u v w : Text}

theorem Balanced.append (hu : Balanced u) (hv : Balanced v) : Balanced (u ++ v) := by
  induction hu with
  | nil => exact hv
  | pair hp hi _ _ ih =>
    rw [List.cons_append, List.append_assoc, List.cons_append]
    exact .pair hp hi ih

theorem Balanced.wrap {c : Char} (hp : partner? c = some o) (hu : Balanced u) :
    Balanced (o :: (u ++ [c])) := .pair hp hu .nil

theorem Closes.append (h : Closes o w) (v : Text) : Closes o (w ++ v) := by
  obtain ⟨u, c, r, rfl, hu, hc⟩ := h
  exact ⟨u, c, r ++ v, by rw [List.append_assoc, List.cons_append], hu, hc⟩

/-- In a balanced word every opening bracket is closed. -/
theorem Balanced.closes (h : Balanced w) (hw : w = u ++ o :: v) (ho : isOpening o) :
    Closes o v := by
  induction h generalizing u v with
  | nil => simp at hw
  | @pair b c x y hp hx _ ihx ihy =>
    cases u with
    | nil =>
      obtain ⟨rfl, rfl⟩ := List.cons.inj hw
      exact ⟨x, c, y, rfl, hx, hp⟩
    | cons d u =>
      obtain ⟨-, he⟩ := List.cons.inj hw
      rcases List.append_eq_append_iff.1 he with ⟨r, rfl, hr⟩ | ⟨r, hr, hv⟩
      · cases r with
        | nil =>
          obtain ⟨rfl, -⟩ := List.cons.inj hr
          rw [not_isOpening_of_partner? hp] at ho
          contradiction
        | cons e r => exact ihy (List.cons.inj hr).2
      · cases r with
        | nil =>
          obtain ⟨rfl, -⟩ := List.cons.inj hv
          rw [not_isOpening_of_partner? hp] at ho
          contradiction
        | cons e r =>
          obtain ⟨rfl, rfl⟩ := List.cons.inj hv
          exact (ihx hr).append (c :: y)

end Words

section Marks

variable {ms ms' : List Mark} {s : List OpenBracket} {c : Char} {u w : Text}

theorem terminated_append : Terminated (ms ++ ms') ↔ Terminated ms ∧ Terminated ms' :=
  List.forall_mem_append

theorem terminated_bracket (c : Char) (l k : Nat) : Terminated [.bracket c l k] := by
  simp [Terminated, Mark.bracket?]

theorem terminated_bracket_cons {l k : Nat} :
    Terminated (.bracket c l k :: ms) ↔ Terminated ms := by
  rw [Terminated, List.forall_mem_cons]
  exact and_iff_right rfl

theorem Terminated.eq_nil (h : Terminated ms) (hw : word ms = []) : ms = [] := by
  cases ms with
  | nil => rfl
  | cons m ms =>
    obtain ⟨hm, -⟩ := List.forall_mem_cons.1 h
    cases m <;> contradiction

theorem Terminated.exists_cons (h : Terminated ms) (hw : word ms = c :: w) :
    ∃ l k ms', ms = .bracket c l k :: ms' ∧ Terminated ms' ∧ word ms' = w := by
  cases ms with
  | nil => contradiction
  | cons m ms =>
    obtain ⟨hm, ht⟩ := List.forall_mem_cons.1 h
    cases m with
    | bracket d l k =>
      obtain ⟨rfl, rfl⟩ := List.cons.inj hw
      exact ⟨l, k, ms, rfl, ht, rfl⟩
    | openString => contradiction

theorem exists_append_of_word (hw : word ms = u ++ w) :
    ∃ us vs, ms = us ++ vs ∧ word us = u ∧ word vs = w := List.filterMap_eq_append_iff.1 hw

/-- A balanced word leaves the stack as it is. -/
theorem follow_of_balanced (h : Balanced (word ms)) (ht : Terminated ms) (s : List OpenBracket) :
    follow s ms = .ok s := by
  generalize hw : word ms = w at h
  induction h generalizing ms s with
  | nil => rw [ht.eq_nil hw, follow_nil]
  | @pair o c u v hp _ _ ihu ihv =>
    obtain ⟨l, k, ms, rfl, ht, hw⟩ := ht.exists_cons hw
    obtain ⟨us, vs, rfl, hu, hv⟩ := exists_append_of_word hw
    obtain ⟨htu, htv⟩ := terminated_append.1 ht
    obtain ⟨i, j, vs, rfl, htv, hv⟩ := htv.exists_cons hv
    have hc : step (⟨o, l, k⟩ :: s) (.bracket c i j) = .ok s := by
      rw [step_of_closing (not_isOpening_of_partner? hp), if_pos hp]
    rw [follow_cons_of_ok (step_of_isOpening (isOpening_of_partner? hp) l k),
      follow_append_of_ok (ihu htu _ hu), follow_cons_of_ok hc, ihv htv _ hv]

/-- Marks that leave brackets open: balanced parts with the open brackets between them, the
innermost one last. -/
inductive Pending : List Mark → List OpenBracket → Prop
  | closed {ms : List Mark} (strings : Terminated ms) (h : Balanced (word ms)) : Pending ms []
  | opened {ms us : List Mark} {s : List OpenBracket} {c : Char} {l k : Nat}
      (before : Pending ms s) (opening : isOpening c) (strings : Terminated us)
      (h : Balanced (word us)) : Pending (ms ++ .bracket c l k :: us) (⟨c, l, k⟩ :: s)

namespace Pending

theorem extend (h : Pending ms s) (hu : Terminated ms') (hb : Balanced (word ms')) :
    Pending (ms ++ ms') s := by
  cases h with
  | closed ht h =>
    refine .closed (terminated_append.2 ⟨ht, hu⟩) ?_
    rw [word_append]
    exact h.append hb
  | opened before ho ht h =>
    rw [List.append_assoc, List.cons_append]
    refine .opened before ho (terminated_append.2 ⟨ht, hu⟩) ?_
    rw [word_append]
    exact h.append hb

theorem terminated (h : Pending ms s) : Terminated ms := by
  induction h with
  | closed ht => exact ht
  | opened _ _ ht _ ih => exact terminated_append.2 ⟨ih, terminated_bracket_cons.2 ht⟩

theorem balanced (h : Pending ms []) : Balanced (word ms) := by
  cases h with
  | closed _ h => exact h

/-- The open brackets can be closed, whatever balanced word comes first. -/
theorem exists_closers (h : Pending ms s) :
    ∃ v, ∀ y, Balanced y → Balanced (word ms ++ (y ++ v)) := by
  induction h with
  | closed _ h =>
    refine ⟨[], fun y hy => ?_⟩
    rw [List.append_nil]
    exact h.append hy
  | @opened ms us s c l k _ ho _ h ih =>
    obtain ⟨v, hv⟩ := ih
    obtain ⟨d, hd⟩ := exists_partner? ho
    refine ⟨d :: v, fun y hy => ?_⟩
    have hb := hv _ (Balanced.wrap hd (h.append hy))
    simpa [List.append_assoc] using hb

theorem viable (h : Pending ms s) : Viable (word ms) := by
  obtain ⟨v, hv⟩ := h.exists_closers
  exact ⟨v, hv [] .nil⟩

/-- The outermost open bracket comes after a balanced part, and what follows it is viable. -/
theorem exists_outermost (h : Pending ms s) {o : OpenBracket} (hs : s.getLast? = some o) :
    ∃ us vs, ms = us ++ .bracket o.bracket o.line o.column :: vs ∧ Balanced (word us) ∧
      isOpening o.bracket ∧ ∃ s', Pending vs s' := by
  induction h with
  | closed => contradiction
  | @opened ms us s c l k before ho ht h ih =>
    cases s with
    | nil =>
      obtain rfl : ⟨c, l, k⟩ = o := by simpa using hs
      exact ⟨ms, us, rfl, before.balanced, ho, [], .closed ht h⟩
    | cons b s =>
      rw [List.getLast?_cons_cons] at hs
      obtain ⟨ps, vs, rfl, hb, hob, s', hs'⟩ := ih hs
      refine ⟨ps, vs ++ .bracket c l k :: us, by simp, hb, hob, ⟨c, l, k⟩ :: s', ?_⟩
      exact .opened hs' ho ht h

end Pending

/-- The stack holds exactly the brackets that marks leave open. -/
theorem pending_of_follow (h : follow [] ms = .ok s) : Pending ms s := by
  induction ms using List.reverseRecOn generalizing s with
  | nil =>
    obtain rfl := Except.ok.inj h
    exact .closed (by simp [Terminated]) .nil
  | append_singleton ms m ih =>
    obtain ⟨s₁, hs₁, hm⟩ := Except.bind_eq_ok_iff.1 (follow_append [] ms [m] ▸ h)
    obtain ⟨s₂, hs₂, he⟩ := Except.bind_eq_ok_iff.1 (follow_cons s₁ m [] ▸ hm)
    obtain rfl := Except.ok.inj he
    have hp := ih hs₁
    cases m with
    | openString => contradiction
    | bracket c l k =>
      cases ho : isOpening c with
      | true =>
        rw [step_of_isOpening ho] at hs₂
        obtain rfl := Except.ok.inj hs₂
        exact .opened hp ho (by simp [Terminated]) .nil
      | false =>
        cases s₁ with
        | nil =>
          rw [step_of_closing_nil ho] at hs₂
          contradiction
        | cons b s₁ =>
          rw [step_of_closing ho] at hs₂
          split_ifs at hs₂ with hc
          obtain rfl := Except.ok.inj hs₂
          cases hp with
          | @opened ps us _ b i j before hb ht hu =>
            rw [List.append_assoc, List.cons_append]
            refine before.extend ?_ ?_
            · exact terminated_bracket_cons.2 (terminated_append.2 ⟨ht, terminated_bracket c l k⟩)
            · rw [word_bracket, word_append]
              exact Balanced.wrap hc hu

/-- A word as marks, for which any place will do. -/
def unplaced (w : Text) : List Mark := w.map fun c => .bracket c 0 0

@[simp] theorem word_unplaced (w : Text) : word (unplaced w) = w := by
  simp [unplaced, word, List.filterMap_map, Function.comp_def, Mark.bracket?]

theorem terminated_unplaced (w : Text) : Terminated (unplaced w) := by
  simp [unplaced, Terminated, Mark.bracket?]

theorem exists_follow (h : Viable (word ms)) (ht : Terminated ms) : ∃ s, follow [] ms = .ok s := by
  obtain ⟨v, hv⟩ := h
  have hf : follow [] (ms ++ unplaced v) = .ok [] := by
    refine follow_of_balanced ?_ (terminated_append.2 ⟨ht, terminated_unplaced v⟩) []
    rwa [word_append, word_unplaced]
  rw [follow_append] at hf
  obtain ⟨s, hs, -⟩ := Except.bind_eq_ok_iff.1 hf
  exact ⟨s, hs⟩

theorem follow_eq_nil_iff : follow [] ms = .ok [] ↔ Terminated ms ∧ Balanced (word ms) := by
  constructor
  · intro h
    have hp := pending_of_follow h
    exact ⟨hp.terminated, hp.balanced⟩
  · rintro ⟨ht, hb⟩
    exact follow_of_balanced hb ht []

/-- Nothing comes of a balanced word and a closing bracket. -/
theorem not_viable_closing {o : Char} (hu : Balanced u) (hc : partner? c = some o) :
    ¬ Viable (u ++ c :: w) := by
  intro hv
  have hw : word (unplaced u ++ .bracket c 0 0 :: unplaced w) = u ++ c :: w := by
    rw [word_append, word_bracket, word_unplaced, word_unplaced]
  have ht : Terminated (unplaced u ++ .bracket c 0 0 :: unplaced w) :=
    terminated_append.2
      ⟨terminated_unplaced u, terminated_bracket_cons.2 (terminated_unplaced w)⟩
  obtain ⟨s, hs⟩ := exists_follow (hw ▸ hv) ht
  have hb : Balanced (word (unplaced u)) := by rwa [word_unplaced]
  rw [follow_append_of_ok (follow_of_balanced hb (terminated_unplaced u) []), follow_cons,
    step_of_closing_nil (not_isOpening_of_partner? hc)] at hs
  contradiction

end Marks

/-- What is left to say at the end of a source: a bracket may still be open. -/
def atEnd (stack : List OpenBracket) : Except FormatError Unit :=
  match stack.getLast? with
  | some o => .error (.unparsable o.line o.column s!"'{o.bracket}' was never closed")
  | none => .ok ()

/-- Whether there are statements, and which error there is, depends on the marks alone. -/
theorem statementsFrom_map (n : Nat) (stack : List OpenBracket) (current : Option Statement)
    (ls : List Text) :
    (statementsFrom n stack current ls).map (fun _ => ()) =
      follow stack (marksOf n ls) >>= atEnd := by
  induction ls generalizing n stack current with
  | nil =>
    rw [statementsFrom, marksOf, follow_nil]
    change _ = atEnd stack
    rw [atEnd]
    cases stack.getLast? <;> rfl
  | cons l ls ih =>
    rw [statementsFrom_cons, marksOf, follow_append, scanLine_eq_follow]
    cases follow stack (marksFrom n 0 .code l) with
    | error e => rfl
    | ok s =>
      change Except.map _ (if s.isEmpty then _ else _) = follow s (marksOf (n + 1) ls) >>= atEnd
      split_ifs with hs
      · rw [List.isEmpty_iff.1 hs, ← ih (n + 1) [] none]
        cases statementsFrom (n + 1) [] none ls <;> rfl
      · rw [ih]

section Faults

variable {ms : List Mark} {s : List OpenBracket} {e : FormatError}

theorem step_closing_cases {c : Char} (h : isOpening c = false) (s : List OpenBracket) (l k : Nat) :
    (∃ s', step s (.bracket c l k) = .ok s') ∨
      step s (.bracket c l k) = .error (.unparsable l k s!"unmatched '{c}'") := by
  cases s with
  | nil => exact .inr (step_of_closing_nil h l k)
  | cons o s =>
    rw [step_of_closing h]
    split_ifs
    · exact .inl ⟨s, rfl⟩
    · exact .inr rfl

/-- A closing bracket is refused exactly where it makes the word not viable. -/
theorem step_eq_ok_iff {c : Char} {l k : Nat} (h : follow [] ms = .ok s) :
    (∃ s', step s (.bracket c l k) = .ok s') ↔ Viable (word ms ++ [c]) := by
  have hw : word (ms ++ [.bracket c l k]) = word ms ++ [c] := word_append ms _
  constructor
  · rintro ⟨s', hs⟩
    have hf : follow [] (ms ++ [.bracket c l k]) = .ok s' := by
      rw [follow_append_of_ok h, follow_cons_of_ok hs, follow_nil]
    exact hw ▸ (pending_of_follow hf).viable
  · intro hv
    have ht := terminated_append.2 ⟨(pending_of_follow h).terminated, terminated_bracket c l k⟩
    obtain ⟨s', hs⟩ := exists_follow (hw ▸ hv) ht
    rw [follow_append_of_ok h, follow_cons] at hs
    obtain ⟨s'', hs, -⟩ := Except.bind_eq_ok_iff.1 hs
    exact ⟨s'', hs⟩

theorem exists_of_follow_eq_error (h : follow [] ms = .error e) :
    ∃ us m vs s, ms = us ++ m :: vs ∧ follow [] us = .ok s ∧ step s m = .error e := by
  induction ms using List.reverseRecOn with
  | nil => contradiction
  | append_singleton ms m ih =>
    rw [follow_append] at h
    rcases Except.bind_eq_error_iff.1 h with h | ⟨s, hs, h⟩
    · obtain ⟨us, x, vs, s, rfl, hs, he⟩ := ih h
      exact ⟨us, x, vs ++ [m], s, by simp, hs, he⟩
    · rw [follow_cons] at h
      rcases Except.bind_eq_error_iff.1 h with h | ⟨_, _, h⟩
      · exact ⟨ms, m, [], s, rfl, hs, h⟩
      · contradiction

theorem follow_eq_error {us vs : List Mark} {m : Mark} (hu : follow [] us = .ok s)
    (hm : step s m = .error e) : follow [] (us ++ m :: vs) = .error e := by
  rw [follow_append_of_ok hu, follow_cons, hm]
  rfl

/-- What is pending after a bracket does not close it. -/
theorem Pending.not_closes (h : Pending ms s) (o : Char) : ¬ Closes o (word ms) := by
  rintro ⟨u, c, w, hw, hu, hc⟩
  exact not_viable_closing hu hc (hw ▸ h.viable)

theorem closes_of_balanced {us vs : List Mark} {o : Char} {l k : Nat}
    (h : Balanced (word (us ++ .bracket o l k :: vs))) (ho : isOpening o) (ws : List Mark) :
    Closes o (word (vs ++ ws)) := by
  rw [word_append] at h ⊢
  exact (h.closes rfl ho).append (word ws)

/-- The outermost bracket of the stack is the first one that is never closed. -/
theorem outermost_iff (h : follow [] ms = .ok s) {o : Char} {l k : Nat} :
    s.getLast? = some ⟨o, l, k⟩ ↔
      ∃ us vs, ms = us ++ .bracket o l k :: vs ∧ isOpening o ∧ ¬ Closes o (word vs) ∧
        ∀ us₁ b i j us₂, us = us₁ ++ .bracket b i j :: us₂ → isOpening b →
          Closes b (word (us₂ ++ .bracket o l k :: vs)) := by
  have hp := pending_of_follow h
  constructor
  · intro ho
    obtain ⟨us, vs, rfl, hb, hob, s', hv⟩ := hp.exists_outermost ho
    refine ⟨us, vs, rfl, hob, hv.not_closes _, ?_⟩
    rintro us₁ b i j us₂ rfl hob
    exact closes_of_balanced hb hob _
  · rintro ⟨us, vs, rfl, ho, hn, hf⟩
    cases hs : s.getLast? with
    | none =>
      rw [List.getLast?_eq_none_iff] at hs
      subst hs
      have hc := closes_of_balanced hp.balanced ho []
      rw [List.append_nil] at hc
      exact absurd hc hn
    | some x =>
      obtain ⟨us', vs', he, hb, hox, s', hv⟩ := hp.exists_outermost hs
      rcases List.append_eq_append_iff.1 he with ⟨r, rfl, hr⟩ | ⟨r, rfl, hr⟩
      · cases r with
        | nil =>
          obtain ⟨hx, -⟩ := List.cons.inj hr
          cases hx
          rfl
        | cons m r =>
          obtain ⟨rfl, rfl⟩ := List.cons.inj hr
          exact absurd (closes_of_balanced hb ho _) hn
      · cases r with
        | nil =>
          obtain ⟨hx, -⟩ := List.cons.inj hr
          cases hx
          rfl
        | cons m r =>
          obtain ⟨rfl, rfl⟩ := List.cons.inj hr
          exact absurd (hf _ _ _ _ _ rfl hox) (hv.not_closes _)

theorem atEnd_eq_error_iff : atEnd s = .error e ↔
    ∃ o l k, s.getLast? = some ⟨o, l, k⟩ ∧ e = .unparsable l k s!"'{o}' was never closed" := by
  rw [atEnd.eq_def]
  cases s.getLast? with
  | none => simp
  | some b =>
    obtain ⟨o, l, k⟩ := b
    constructor
    · intro h
      exact ⟨o, l, k, rfl, (Except.error.inj h).symm⟩
    · rintro ⟨_, _, _, hb, rfl⟩
      cases hb
      rfl

/-- Where the marks cannot be followed any further, there is the first fault. -/
theorem fault_of_follow_eq_error (hb : ∀ c l k, .bracket c l k ∈ ms → isBracket c)
    (h : follow [] ms = .error e) : Fault ms e := by
  obtain ⟨us, m, vs, s, rfl, hs, he⟩ := exists_of_follow_eq_error h
  have hp := pending_of_follow hs
  cases m with
  | openString l k =>
    obtain rfl := Except.error.inj he
    exact .openString rfl hp.terminated hp.viable
  | bracket c l k =>
    have hn : ¬ Viable (word us ++ [c]) := by
      rw [← step_eq_ok_iff hs (l := l) (k := k), he]
      simp
    rcases isBracket_iff.1 (hb c l k (by simp)) with ho | ⟨o, hc⟩
    · rw [step_of_isOpening ho] at he
      contradiction
    · have hcl : isClosing c := by rw [isClosing, hc, Option.isSome_some]
      rcases step_closing_cases (not_isOpening_of_partner? hc) s l k with ⟨s', hs'⟩ | hs'
      · rw [hs'] at he
        contradiction
      · obtain rfl := Except.error.inj (hs'.symm.trans he)
        exact .unmatched rfl hp.terminated hp.viable hcl hn

/-- The check of brackets fails with the first fault. -/
theorem follow_atEnd_eq_error_iff (hb : ∀ c l k, .bracket c l k ∈ ms → isBracket c) :
    follow [] ms >>= atEnd = .error e ↔ Fault ms e := by
  constructor
  · intro h
    rcases Except.bind_eq_error_iff.1 h with h | ⟨s, hs, h⟩
    · exact fault_of_follow_eq_error hb h
    · obtain ⟨o, l, k, ho, rfl⟩ := atEnd_eq_error_iff.1 h
      obtain ⟨us, vs, hm, hob, hn, hf⟩ := (outermost_iff hs).1 ho
      have hp := pending_of_follow hs
      exact .unclosed hm hp.terminated hp.viable hob hn hf
  · intro h
    rw [Except.bind_eq_error_iff]
    cases h with
    | @unmatched us vs c l k split strings viable closing stuck =>
      subst split
      obtain ⟨s, hs⟩ := exists_follow viable strings
      obtain ⟨o, hc⟩ := Option.isSome_iff_exists.1 closing
      rw [← step_eq_ok_iff hs (l := l) (k := k)] at stuck
      have he := (step_closing_cases (not_isOpening_of_partner? hc) s l k).resolve_left stuck
      exact .inl (follow_eq_error hs he)
    | openString split strings viable =>
      subst split
      obtain ⟨s, hs⟩ := exists_follow viable strings
      exact .inl (follow_eq_error hs rfl)
    | @unclosed us vs o l k split strings viable opening never first =>
      obtain ⟨s, hs⟩ := exists_follow viable strings
      have ho := (outermost_iff hs).2 ⟨us, vs, split, opening, never, first⟩
      exact .inr ⟨s, hs, atEnd_eq_error_iff.2 ⟨o, l, k, ho, rfl⟩⟩

theorem follow_atEnd_eq_ok_iff :
    follow [] ms >>= atEnd = .ok () ↔ Terminated ms ∧ Balanced (word ms) := by
  rw [← follow_eq_nil_iff, Except.bind_eq_ok_iff]
  constructor
  · rintro ⟨s, hs, he⟩
    cases hl : s.getLast? with
    | none => rw [hs, List.getLast?_eq_none_iff.1 hl]
    | some o =>
      rw [atEnd, hl] at he
      contradiction
  · intro h
    exact ⟨[], h, rfl⟩

end Faults

theorem isBracket_of_mem_marksFrom {n k : Nat} {mode : Mode} {t : Text} {c : Char} {i j : Nat}
    (h : .bracket c i j ∈ marksFrom n k mode t) : isBracket c := by
  fun_induction marksFrom n k mode t with
  | case1 => simp at h
  | case2 => simp at h
  | case3 k q escaped d r ih => exact ih h
  | case4 => simp at h
  | case5 k d r _ _ ih => exact ih h
  | case6 k d r _ _ hd ih =>
    rcases List.mem_cons.1 h with he | h
    · cases he
      exact hd
    · exact ih h
  | case7 k d r _ _ _ ih => exact ih h

theorem isBracket_of_mem_marksOf {n : Nat} {ls : List Text} {c : Char} {i j : Nat}
    (h : .bracket c i j ∈ marksOf n ls) : isBracket c := by
  induction ls generalizing n with
  | nil => simp [marksOf] at h
  | cons l ls ih =>
    rw [marksOf, List.mem_append] at h
    exact h.elim isBracket_of_mem_marksFrom ih

/-- A source is read in one way, and it is refused exactly for the brackets and open strings in that
reading. -/
theorem format_balanced_iff (source : Text) (options : FormatOptions) :
    ∃ ms, (∀ ms', ReadsLines 1 source.lines ms' ↔ ms' = ms) ∧
      ((∃ t, format source options = .ok t) ↔ Terminated ms ∧ Balanced (word ms)) ∧
      ∀ e, format source options = .error e ↔ Fault ms e := by
  have hm := statementsFrom_map 1 [] none source.lines
  refine ⟨marksOf 1 source.lines, fun ms' => readsLines_iff, ?_, fun e => ?_⟩
  · rw [← follow_atEnd_eq_ok_iff, ← hm, format, statements]
    simp only [Except.map_eq_ok_iff]
    constructor
    · rintro ⟨-, ss, hs, -⟩
      exact ⟨ss, hs, trivial⟩
    · rintro ⟨ss, hs, -⟩
      exact ⟨_, ss, hs, rfl⟩
  · rw [← follow_atEnd_eq_error_iff fun c l k => isBracket_of_mem_marksOf, ← hm,
      Except.map_eq_error_iff, format, Except.map_eq_error_iff, statements]

end FencedCode.Tidy
