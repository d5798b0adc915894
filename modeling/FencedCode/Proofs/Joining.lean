import FencedCode.Proofs.Brackets
import FencedCode.Proofs.Space

/-! Statements that go over several lines. As long as no line with a comment leaves a bracket open,
the lines of a statement together are code with the same brackets, and perhaps a comment. -/
namespace FencedCode.Tidy

/-- A line with a comment after its code. -/
def HasComment (l : Text) : Prop := ∃ c u ms, l = c ++ '#' :: u ∧ Code 0 0 c ms

section Blanks

variable {n k : Nat} {c : Char} {t u : Text} {ms : List Mark}

theorem Code.eq_nil (h : Code n k [] ms) : ms = [] := by
  generalize ht : [] = t at h
  cases h with
  | nil => rfl
  | literal hl _ =>
    obtain ⟨q, r, rfl, -⟩ := hl.exists_cons
    contradiction
  | bracket => contradiction
  | plain => contradiction

theorem Code.of_blank_append (hb : ∀ c ∈ u, isBlank c) (h : Code n k (u ++ t) ms) :
    Code n (k + u.length) t ms := by
  induction u generalizing k with
  | nil => exact h
  | cons c u ih =>
    obtain ⟨hc, hu⟩ := List.forall_mem_cons.1 hb
    obtain ⟨-, -, hq, hbr⟩ := plain_of_isBlank hc
    have hk : k + (c :: u).length = k + 1 + u.length := by
      rw [List.length_cons]
      omega
    rw [hk]
    generalize hx : c :: u ++ t = x at h
    cases h with
    | nil => contradiction
    | literal hl _ =>
      obtain ⟨d, r, rfl, hd⟩ := hl.exists_cons
      rw [← (List.cons.inj hx).1, hq] at hd
      contradiction
    | bracket hb' _ =>
      rw [← (List.cons.inj hx).1, hbr] at hb'
      contradiction
    | plain _ _ _ hr =>
      rw [← (List.cons.inj hx).2] at hr
      exact ih hu hr

theorem Code.of_append_blank (hb : ∀ c ∈ u, isBlank c) (h : Code n k (t ++ u) ms) :
    Code n k t ms := by
  generalize hx : t ++ u = x at h
  induction h generalizing t u with
  | nil =>
    rw [(List.append_eq_nil_iff.1 hx).1]
    exact .nil
  | @literal k l r ms hl hr ih =>
    rcases List.append_eq_append_iff.1 hx with ⟨a, he, rfl⟩ | ⟨a, rfl, rfl⟩
    · -- A literal does not end in white space, so it is not cut.
      rcases List.eq_nil_or_concat a with rfl | ⟨a, d, rfl⟩
      · rw [List.append_nil] at he
        have hm := ih (t := []) hb rfl
        have hc := Code.literal hl hm
        rwa [List.append_nil, he] at hc
      · obtain ⟨q, v, hv, hq⟩ := hl.reverse_eq
        have hd : d = q := by
          rw [he] at hv
          simpa using congrArg List.head? hv
        have hbd : isBlank d := hb d (by simp)
        rw [hd] at hbd
        rw [(plain_of_isBlank hbd).2.2.1] at hq
        contradiction
    · exact .literal hl (ih hb rfl)
  | @bracket k c r ms hc hr ih =>
    cases t with
    | nil =>
      rw [List.nil_append] at hx
      have hbr := (plain_of_isBlank (hb c (hx ▸ List.mem_cons_self))).2.2.2
      rw [hc] at hbr
      contradiction
    | cons d t =>
      obtain ⟨rfl, rfl⟩ := List.cons.inj hx
      exact .bracket hc (ih hb rfl)
  | @plain k c r ms hs hq hc hr ih =>
    cases t with
    | nil =>
      rw [List.nil_append] at hx
      subst hx
      rw [(ih (t := []) (List.forall_mem_cons.1 hb).2 rfl).eq_nil]
      exact .nil
    | cons d t =>
      obtain ⟨rfl, rfl⟩ := List.cons.inj hx
      exact .plain hs hq hc (ih hb rfl)

theorem code_of_isAllBlank (hb : ∀ c ∈ u, isBlank c) (n k : Nat) : Code n k u [] := by
  induction u generalizing k with
  | nil => exact .nil
  | cons c u ih =>
    obtain ⟨hc, hu⟩ := List.forall_mem_cons.1 hb
    obtain ⟨hs, -, hq, hbr⟩ := plain_of_isBlank hc
    exact .plain hs hq hbr (ih hu (k + 1))

end Blanks

/-- Code, and perhaps a comment after it, with the brackets of the code. -/
inductive Phrase : Text → Text → Prop
  | code {t : Text} {ms : List Mark} (h : Code 0 0 t ms) : Phrase t (word ms)
  | comment {t u : Text} {ms : List Mark} (h : Code 0 0 t ms) : Phrase (t ++ '#' :: u) (word ms)

theorem Code.trimStart {n k : Nat} {t : Text} {ms : List Mark} (h : Code n k t ms) :
    Code n (k + (t.takeWhile isBlank).length) t.trimStart ms := by
  apply Code.of_blank_append fun c hc => List.mem_takeWhile_imp hc
  rwa [Text.trimStart, List.takeWhile_append_dropWhile]

/-- Trimmed code has the same brackets. -/
theorem Code.trim {n k : Nat} {t : Text} {ms : List Mark} (h : Code n k t ms) :
    ∃ ms', Code 0 0 t.trim ms' ∧ word ms' = word ms := by
  obtain ⟨u, hu, hb⟩ := t.trimStart.exists_trimEnd_append
  have hs := h.trimStart
  rw [hu] at hs
  exact (Code.of_append_blank hb hs).move 0 0

/-- Trimming a line with a comment trims its code at the start and its comment at the end. -/
theorem trim_append_comment (c v : Text) :
    Text.trim (c ++ '#' :: v) = c.trimStart ++ '#' :: v.trimEnd := by
  have hs : isBlank '#' = false := by decide
  have ht : Text.trimStart (c ++ '#' :: v) = c.trimStart ++ '#' :: v := by
    cases hb : c.isAllBlank with
    | true =>
      rw [Text.trimStart_append_of_blank (Text.isAllBlank_iff.1 hb),
        Text.trimStart_of_blank (Text.isAllBlank_iff.1 hb)]
      exact Text.trimStart_eq_self (by rintro d ⟨⟩; exact hs)
    | false => exact Text.trimStart_append hb _
  rw [Text.trim, ht, Text.trimEnd_append_cons _ hs]

section Statements

variable {n : Nat} {stack s : List OpenBracket} {l t w : Text} {current : Option Statement}

theorem terminated_of_follow {ms : List Mark} (h : follow stack ms = .ok s) : Terminated ms := by
  induction ms generalizing stack with
  | nil => simp [Terminated]
  | cons m ms ih =>
    rw [follow_cons] at h
    obtain ⟨s₁, hm, hs⟩ := Except.bind_eq_ok_iff.1 h
    cases m with
    | bracket c l k => exact terminated_bracket_cons.2 (ih hs)
    | openString => contradiction

/-- A line that passes the check of brackets is code and perhaps a comment. -/
theorem exists_code_of_follow (h : follow stack (marksFrom n 0 .code l) = .ok s) :
    ∃ ms, word ms = word (marksFrom n 0 .code l) ∧
      (Code 0 0 l ms ∨ ∃ c u, l = c ++ '#' :: u ∧ Code 0 0 c ms) := by
  obtain ⟨c, u, ms, rfl, hc, rfl | ⟨v, rfl⟩ | hu⟩ := exists_code n 0 l
  · obtain ⟨ms', hm, hw⟩ := hc.move 0 0
    rw [List.append_nil]
    refine ⟨ms', ?_, .inl hm⟩
    rw [hw, ← List.append_nil c, hc.marksFrom_append, marksFrom, List.append_nil]
  · obtain ⟨ms', hm, hw⟩ := hc.move 0 0
    refine ⟨ms', ?_, .inr ⟨c, v, rfl, hm⟩⟩
    rw [hw, hc.marksFrom_append, marksFrom, if_pos rfl, List.append_nil]
  · rw [hc.marksFrom_append, marksFrom_openString hu] at h
    have ht := terminated_append.1 (terminated_of_follow h)
    exact absurd (ht.2 _ List.mem_cons_self) (by simp [Mark.bracket?])

theorem Phrase.prepend {a : Text} {ms : List Mark} (ha : Code 0 0 a ms) (h : Phrase t w) :
    Phrase (a ++ t) (word ms ++ w) := by
  cases h with
  | code h =>
    obtain ⟨ms', hm, hw⟩ := h.move 0 (0 + a.length)
    rw [← hw, ← word_append]
    exact .code (ha.append hm)
  | comment h =>
    obtain ⟨ms', hm, hw⟩ := h.move 0 (0 + a.length)
    rw [← hw, ← word_append, ← List.append_assoc]
    exact .comment (ha.append hm)

theorem Code.isAllBlank_eq_false {k : Nat} {ms : List Mark} (h : Code n k t ms)
    (hw : word ms ≠ []) : t.isAllBlank = false := by
  by_contra hb
  rw [Bool.not_eq_false] at hb
  have hc := Code.of_append_blank (t := []) (Text.isAllBlank_iff.1 hb) h
  rw [hc.eq_nil] at hw
  exact hw rfl

namespace Statement

/-- What stands before a line in its statement. -/
def lead : Option Statement → Text
  | none => []
  | some s => s.text ++ [' ']

theorem text_grow (current : Option Statement) (l : Text) :
    (grow current l).text = lead current ++ l.trim := by
  cases current with
  | none => rfl
  | some s => exact List.append_cons s.text ' ' l.trim

/-- The statement before a line. Its brackets leave exactly those of the stack open. -/
structure Growing (current : Option Statement) (stack : List OpenBracket) : Prop where
  indent : ∀ s ∈ current, ∀ c ∈ s.indent, isBlank c ∧ c ≠ '\n'
  unbroken : '\n' ∉ lead current
  visible : current = none ∨ (lead current).isAllBlank = false
  code : ∃ ms ms₀, Code 0 0 (lead current) ms ∧ word ms = word ms₀ ∧ follow [] ms₀ = .ok stack

/-- A complete statement, which could stand on a line of its own. -/
structure Sound (s : Statement) : Prop where
  indent : ∀ c ∈ s.indent, isBlank c ∧ c ≠ '\n'
  unbroken : '\n' ∉ s.text
  visible : s.text ≠ [] → s.text.isAllBlank = false
  phrase : ∃ w, Phrase s.text w ∧ Balanced w

theorem growing_none : Growing none [] :=
  ⟨by simp, by simp [lead], .inl rfl, [], [], .nil, rfl, rfl⟩

theorem mem_of_mem_trim {c : Char} (h : c ∈ l.trim) : c ∈ l := by
  obtain ⟨u, hu, -⟩ := l.trimStart.exists_trimEnd_append
  apply (List.dropWhile_suffix isBlank).subset
  change c ∈ l.trimStart
  rw [hu]
  exact List.mem_append_left u h

namespace Growing

theorem indent_grow (h : Growing current stack) (hn : '\n' ∉ l) :
    ∀ c ∈ (grow current l).indent, isBlank c ∧ c ≠ '\n' := by
  cases current with
  | some s => exact h.indent s rfl
  | none =>
    intro c hc
    refine ⟨List.mem_takeWhile_imp hc, ?_⟩
    rintro rfl
    exact hn ((List.takeWhile_prefix isBlank).subset hc)

theorem unbroken_grow (h : Growing current stack) (hn : '\n' ∉ l) :
    '\n' ∉ (grow current l).text := by
  rw [text_grow, List.mem_append, not_or]
  exact ⟨h.unbroken, fun hm => hn (mem_of_mem_trim hm)⟩

/-- The line that closes all brackets completes a statement. -/
theorem sound (h : Growing current stack) (hn : '\n' ∉ l)
    (hs : follow stack (marksFrom n 0 .code l) = .ok []) : (grow current l).Sound := by
  obtain ⟨ms, ms₀, hc, hw, hf⟩ := h.code
  obtain ⟨ms₁, hw₁, hl⟩ := exists_code_of_follow hs
  have hb : Balanced (word ms ++ word ms₁) := by
    rw [hw, hw₁, ← word_append]
    rw [← follow_append_of_ok hf] at hs
    exact (follow_eq_nil_iff.1 hs).2
  have hp : Phrase l.trim (word ms₁) := by
    rcases hl with hl | ⟨c, u, rfl, hl⟩
    · obtain ⟨ms₂, hl, hw₂⟩ := hl.trim
      rw [← hw₂]
      exact .code hl
    · rw [trim_append_comment]
      obtain ⟨ms₂, hl, hw₂⟩ := hl.trimStart.move 0 0
      rw [← hw₂]
      exact .comment hl
  refine ⟨h.indent_grow hn, h.unbroken_grow hn, fun ht => ?_, _, ?_, hb⟩
  · rw [text_grow] at ht ⊢
    rcases h.visible with rfl | hv
    · rw [lead, List.nil_append] at ht ⊢
      obtain ⟨c, r, hr⟩ := List.exists_cons_of_ne_nil ht
      have hb := Text.not_isBlank_of_head?_trim (t := l) (c := c) (by rw [hr]; rfl)
      rw [hr, Text.isAllBlank, List.all_cons, hb, Bool.false_and]
    · rw [Text.isAllBlank_append, hv, Bool.false_and]
  · rw [text_grow]
    exact hp.prepend hc

/-- A line that leaves brackets open, and has no comment, continues a statement. -/
theorem next (h : Growing current stack) (hn : '\n' ∉ l)
    (hs : follow stack (marksFrom n 0 .code l) = .ok s) (hne : s ≠ []) (hc : ¬ HasComment l) :
    Growing (some (grow current l)) s := by
  obtain ⟨ms, ms₀, hm, hw, hf⟩ := h.code
  obtain ⟨ms₁, hw₁, hl | ⟨c, u, he, hl⟩⟩ := exists_code_of_follow hs
  swap
  · exact absurd ⟨c, u, ms₁, he, hl⟩ hc
  obtain ⟨ms₂, hl, hw₂⟩ := hl.trim
  obtain ⟨ms₃, hl, hw₃⟩ := hl.move 0 (0 + (lead current).length)
  have ht : Code 0 0 (grow current l).text (ms ++ ms₃) := by
    rw [text_grow]
    exact hm.append hl
  have hlead : Code 0 0 (lead (some (grow current l))) (ms ++ ms₃) := by
    rw [← List.append_nil (ms ++ ms₃)]
    exact ht.append (.plain (by decide) (by decide) (by decide) .nil)
  have hword : word (ms ++ ms₃) = word (ms₀ ++ marksFrom n 0 .code l) := by
    rw [word_append, word_append, hw₃, hw₂, hw₁, hw]
  rw [← follow_append_of_ok hf] at hs
  refine ⟨?_, ?_, .inr (hlead.isAllBlank_eq_false fun hnil => hne ?_), _, _, hlead, hword, hs⟩
  · rintro - ⟨⟩
    exact h.indent_grow hn
  · rw [lead, List.mem_append, not_or]
    exact ⟨h.unbroken_grow hn, by decide⟩
  · have hz := (terminated_of_follow hs).eq_nil (hword.symm.trans hnil)
    rw [hz] at hs
    exact (Except.ok.inj hs).symm

end Growing

/-- At the end of a source no bracket is open. -/
theorem eq_nil_of_statementsFrom_nil {ss : List Statement}
    (h : statementsFrom n stack current [] = .ok ss) : stack = [] ∧ ss = [] := by
  rw [statementsFrom.eq_def] at h
  cases hl : stack.getLast? with
  | none =>
    simp only [hl] at h
    exact ⟨List.getLast?_eq_none_iff.1 hl, (Except.ok.inj h).symm⟩
  | some o =>
    simp only [hl] at h
    contradiction

/-- A source gives complete statements, unless a comment hides what comes after it. -/
theorem sound_of_statementsFrom {ls : List Text} {ss : List Statement}
    (h : statementsFrom n stack current ls = .ok ss) (hg : Growing current stack)
    (hn : ∀ l ∈ ls, '\n' ∉ l)
    (hc : ∀ us l vs s, ls = us ++ l :: vs → HasComment l →
      follow stack (marksOf n (us ++ [l])) = .ok s → s = []) :
    ∀ s ∈ ss, s.Sound := by
  induction ls generalizing n stack current ss with
  | nil =>
    obtain ⟨-, rfl⟩ := eq_nil_of_statementsFrom_nil h
    simp
  | cons l ls ih =>
    obtain ⟨hl, hls⟩ := List.forall_mem_cons.1 hn
    rw [statementsFrom_cons, scanLine_eq_follow] at h
    obtain ⟨s₁, hs₁, h⟩ := Except.bind_eq_ok_iff.1 h
    have hrest : ∀ us m vs s, ls = us ++ m :: vs → HasComment m →
        follow s₁ (marksOf (n + 1) (us ++ [m])) = .ok s → s = [] := by
      rintro us m vs s rfl hm hf
      refine hc (l :: us) m vs s rfl hm ?_
      rwa [List.cons_append, marksOf, follow_append_of_ok hs₁]
    by_cases he : s₁ = []
    · subst he
      rw [List.isEmpty_nil, if_pos rfl] at h
      obtain ⟨more, hmore, h⟩ := Except.bind_eq_ok_iff.1 h
      obtain rfl := Except.ok.inj h
      exact List.forall_mem_cons.2 ⟨hg.sound hl hs₁, ih hmore growing_none hls hrest⟩
    · rw [if_neg (by simpa using he)] at h
      have hno : ¬ HasComment l := by
        intro hm
        refine he (hc [] l ls s₁ rfl hm ?_)
        rw [List.nil_append, marksOf, marksOf, List.append_nil, hs₁]
      exact ih h (hg.next hl hs₁ he hno) hls hrest

end Statement

end Statements

end FencedCode.Tidy
