import FencedCode.Proofs.Artifacts
import Mathlib.Data.List.Induction

/-! The grammar of tag lines: string literals between brackets, as they are written and with the
tags that they stand for. A list is read token by token, and the parser accepts a line if and only
if its tokens lead to the end of a list. -/
namespace FencedCode.Tags

/-- The characters that may follow a backslash, each with the one that is meant. -/
def escapes : List (Char × Char) :=
  [('\\', '\\'), ('\'', '\''), ('"', '"'), ('n', '\n'), ('t', '\t'), ('r', '\r')]

/-- What may stand between two quotes, as it is written and as it is meant. -/
inductive Items (quote : Char) : Text → Text → Prop
  | nil : Items quote [] []
  | escape {e v : Char} {t s : Text} (known : (e, v) ∈ escapes) (rest : Items quote t s) :
      Items quote ('\\' :: e :: t) (v :: s)
  | plain {c : Char} {t s : Text} (slash : c ≠ '\\') (feed : c ≠ '\n') (delimiter : c ≠ quote)
      (rest : Items quote t s) : Items quote (c :: t) (c :: s)

def IsQuote (c : Char) : Prop := c = '"' ∨ c = '\''

/-- A literal, as it is written and as it is meant. -/
inductive Literal : Text → Text → Prop
  | mk {quote : Char} {t s : Text} (delimiter : IsQuote quote) (items : Items quote t s) :
      Literal (quote :: (t ++ [quote])) s

def IsGap (t : Text) : Prop := ∀ c ∈ t, isSpace c

/-- Further literals, each after a comma. -/
inductive More : Text → List Text → Prop
  | nil : More [] []
  | cons {a b w t s : Text} {ss : List Text} (before : IsGap a) (after : IsGap b)
      (literal : Literal w s) (rest : More t ss) : More (a ++ ',' :: (b ++ (w ++ t))) (s :: ss)

/-- A comma after the last literal, which may be missing. -/
inductive LastComma : Text → Prop
  | missing : LastComma []
  | written {a : Text} (gap : IsGap a) : LastComma (a ++ [','])

/-- The elements of a list with their commas. -/
inductive Elements : Text → List Text → Prop
  | none : Elements [] []
  | some {w t u s : Text} {ss : List Text} (first : Literal w s) (more : More t ss)
      (last : LastComma u) : Elements (w ++ (t ++ u)) (s :: ss)

/-- The grammar of tag lines, with the values of the literals. Any white space may stand before the
marker, and only spaces, tabs and line breaks after it. -/
inductive Spells : Text → List Text → Prop
  | intro {lead a b t c d : Text} {ss : List Text} (indented : ∀ x ∈ lead, isBlank x)
      (marked : IsGap a) (opened : IsGap b) (elements : Elements t ss) (closing : IsGap c)
      (closed : IsGap d) :
      Spells (lead ++ (marker ++ (a ++ '[' :: (b ++ (t ++ (c ++ ']' :: d)))))) ss

/-- A list without its later repetitions. -/
inductive FirstSeen : List Text → List Text → Prop
  | nil : FirstSeen [] []
  | new {s : Text} {ss ts : List Text} (before : FirstSeen ss ts) (h : s ∉ ss) :
      FirstSeen (ss ++ [s]) (ts ++ [s])
  | again {s : Text} {ss ts : List Text} (before : FirstSeen ss ts) (h : s ∈ ss) :
      FirstSeen (ss ++ [s]) ts

section FirstSeen

variable {s : Text} {ss ts : List Text}

theorem eraseDups_append_of_mem (h : s ∈ ss) : (ss ++ [s]).eraseDups = ss.eraseDups := by
  have hr : List.removeAll [s] ss = [] := by simp [List.removeAll, h]
  rw [List.eraseDups_append, hr, List.eraseDups_nil, List.append_nil]

theorem eraseDups_append_of_not_mem (h : s ∉ ss) :
    (ss ++ [s]).eraseDups = ss.eraseDups ++ [s] := by
  have hr : List.removeAll [s] ss = [s] := by simp [List.removeAll, h]
  rw [List.eraseDups_append, hr]
  rfl

theorem firstSeen_iff : FirstSeen ss ts ↔ ts = ss.eraseDups := by
  constructor
  · intro h
    induction h with
    | nil => rfl
    | new _ h ih => rw [eraseDups_append_of_not_mem h, ih]
    | again _ h ih => rw [eraseDups_append_of_mem h, ih]
  · rintro rfl
    induction ss using List.reverseRecOn with
    | nil => exact .nil
    | append_singleton ss s ih =>
      by_cases h : s ∈ ss
      · rw [eraseDups_append_of_mem h]
        exact ih.again h
      · rw [eraseDups_append_of_not_mem h]
        exact ih.new h

end FirstSeen

section Literals

variable {t s rest : Text}

theorem unescape?_eq_some_iff {e v : Char} : unescape? e = some v ↔ (e, v) ∈ escapes := by
  simp only [escapes, List.mem_cons, Prod.mk.injEq, List.not_mem_nil, or_false]
  unfold unescape?
  split_ifs with h₁ h₂ h₃ h₄
  · simp only [Bool.or_eq_true, decide_eq_true_eq] at h₁
    rcases h₁ with (rfl | rfl) | rfl <;> simp [eq_comm]
  · simp [h₂, eq_comm]
  · simp [h₃, eq_comm]
  · simp [h₄, eq_comm]
  · simp_all

theorem items?_eq_some_iff {quote : Char} (hq : quote ≠ '\\') :
    items? quote t = some (s, rest) ↔ ∃ w, Items quote w s ∧ t = w ++ quote :: rest := by
  constructor
  · intro h
    fun_induction items? quote t generalizing s rest with
    | case1 => contradiction
    | case2 r =>
      obtain ⟨rfl, rfl⟩ := Prod.mk.inj (Option.some.inj h)
      exact ⟨[], .nil, rfl⟩
    | case3 => contradiction
    | case4 => contradiction
    | case5 e r v hv _ ih =>
      obtain ⟨⟨s, rest⟩, hs, he⟩ := Option.map_eq_some_iff.1 h
      cases he
      obtain ⟨w, hw, rfl⟩ := ih hs
      exact ⟨'\\' :: e :: w, .escape (unescape?_eq_some_iff.1 hv) hw, rfl⟩
    | case6 => contradiction
    | case7 c r hc hb hl ih =>
      obtain ⟨⟨s, rest⟩, hs, he⟩ := Option.map_eq_some_iff.1 h
      cases he
      obtain ⟨w, hw, rfl⟩ := ih hs
      exact ⟨c :: w, .plain hb hl hc hw, rfl⟩
  · rintro ⟨w, hw, rfl⟩
    induction hw with
    | nil => rw [List.nil_append, items?_cons, if_pos rfl]
    | escape known _ ih =>
      rw [List.cons_append, List.cons_append, items?_cons, if_neg hq.symm, if_pos rfl]
      simp only [unescape?_eq_some_iff.2 known, ih, Option.map_some]
    | plain slash feed delimiter _ ih =>
      rw [List.cons_append, items?_cons, if_neg delimiter, if_neg slash, if_neg feed, ih]
      rfl

/-- The parser reads a literal exactly where one is written. -/
theorem literal?_eq_some_iff :
    literal? t = some (s, rest) ↔ ∃ w, Literal w s ∧ t = w ++ rest := by
  constructor
  · intro h
    cases t with
    | nil => contradiction
    | cons c r =>
      rw [literal?] at h
      split at h
      · next hc =>
        have hd : IsQuote c := by simpa [IsQuote] using hc
        have hs : c ≠ '\\' := by rcases hd with rfl | rfl <;> decide
        obtain ⟨w, hw, rfl⟩ := (items?_eq_some_iff hs).1 h
        exact ⟨c :: (w ++ [c]), .mk hd hw, by simp⟩
      · contradiction
  · rintro ⟨w, ⟨hd, hi⟩, rfl⟩
    rename_i quote t
    have hs : quote ≠ '\\' := by rcases hd with rfl | rfl <;> decide
    have hc : (decide (quote = '"') || decide (quote = '\'')) = true := by
      rcases hd with rfl | rfl <;> rfl
    rw [List.cons_append, literal?, if_pos hc, items?_eq_some_iff hs]
    exact ⟨t, hi, by simp⟩

theorem Literal.exists_cons {w : Text} (h : Literal w s) : ∃ c r, w = c :: r ∧ IsQuote c := by
  obtain ⟨hd, -⟩ := h
  exact ⟨_, _, rfl, hd⟩

/-- No literal begins with another one. -/
theorem Literal.unique {w w' s' u u' : Text} (h : Literal w s) (h' : Literal w' s')
    (he : w ++ u = w' ++ u') : w = w' ∧ s = s' := by
  have hl : literal? (w ++ u) = some (s, u) := literal?_eq_some_iff.2 ⟨w, h, rfl⟩
  have hl' : literal? (w ++ u) = some (s', u') := literal?_eq_some_iff.2 ⟨w', h', he⟩
  obtain ⟨rfl, rfl⟩ := Prod.mk.inj (Option.some.inj (hl.symm.trans hl'))
  exact ⟨List.append_cancel_right he, rfl⟩

end Literals

/-- How far a list has come: what stood in it last, apart from space. -/
inductive Stage
  | marker
  | separator
  | literal
  | close
  deriving DecidableEq

/-- The brackets and commas of a list, each between the stages before and after it. -/
def signs : List (Stage × Char × Stage) :=
  [(.marker, '[', .separator), (.separator, ']', .close), (.literal, ',', .separator),
    (.literal, ']', .close)]

/-- What may come next in a list, with the tags in it. -/
inductive Token : Stage → Text → List Text → Stage → Prop
  | space {q : Stage} {c : Char} (h : isSpace c) : Token q [c] [] q
  | sign {p q : Stage} {c : Char} (h : (p, c, q) ∈ signs) : Token p [c] [] q
  | literal {w s : Text} (h : Literal w s) : Token .separator w [s] .literal

inductive Tokens : Stage → Text → List Text → Stage → Prop
  | nil {q : Stage} : Tokens q [] [] q
  | cons {p q r : Stage} {w t : Text} {ss ss' : List Text} (first : Token p w ss q)
      (rest : Tokens q t ss' r) : Tokens p (w ++ t) (ss ++ ss') r

section Tokens

variable {p q r : Stage} {w t u : Text} {ss ss' : List Text}

theorem not_isSpace_of_isQuote {c : Char} (h : IsQuote c) : isSpace c = false := by
  rcases h with rfl | rfl <;> decide

theorem not_isSpace_of_mem_signs {c : Char} (h : (p, c, q) ∈ signs) : isSpace c = false := by
  have ha : ∀ x ∈ signs, isSpace x.2.1 = false := by decide
  exact ha _ h

theorem not_isQuote_of_mem_signs {c : Char} (h : (p, c, q) ∈ signs) : ¬ IsQuote c := by
  have ha : ∀ x ∈ signs, x.2.1 ≠ '"' ∧ x.2.1 ≠ '\'' := by decide
  exact not_or.2 (ha _ h)

theorem eq_of_mem_signs {c : Char} {q' : Stage} (h : (p, c, q) ∈ signs)
    (h' : (p, c, q') ∈ signs) : q = q' := by
  have ha : ∀ x ∈ signs, ∀ y ∈ signs, x.1 = y.1 → x.2.1 = y.2.1 → x.2.2 = y.2.2 := by decide
  exact ha _ h _ h' rfl rfl

theorem Token.exists_cons (h : Token p w ss q) : ∃ c v, w = c :: v := by
  cases h with
  | space => exact ⟨_, _, rfl⟩
  | sign => exact ⟨_, _, rfl⟩
  | literal h =>
    obtain ⟨c, v, hw, -⟩ := h.exists_cons
    exact ⟨c, v, hw⟩

/-- At each stage the text decides which token comes next. -/
theorem Token.unique {w' u' : Text} {q' : Stage} (h : Token p w ss q) (h' : Token p w' ss' q')
    (he : w ++ u = w' ++ u') : w = w' ∧ ss = ss' ∧ q = q' := by
  cases h with
  | space hc =>
    cases h' with
    | space hc' =>
      obtain ⟨rfl, -⟩ := List.cons.inj he
      exact ⟨rfl, rfl, rfl⟩
    | sign hs =>
      obtain ⟨rfl, -⟩ := List.cons.inj he
      rw [not_isSpace_of_mem_signs hs] at hc
      contradiction
    | literal hl =>
      obtain ⟨c, v, rfl, hq⟩ := hl.exists_cons
      obtain ⟨rfl, -⟩ := List.cons.inj he
      rw [not_isSpace_of_isQuote hq] at hc
      contradiction
  | sign hs =>
    cases h' with
    | space hc =>
      obtain ⟨rfl, -⟩ := List.cons.inj he
      rw [not_isSpace_of_mem_signs hs] at hc
      contradiction
    | sign hs' =>
      obtain ⟨rfl, -⟩ := List.cons.inj he
      exact ⟨rfl, rfl, eq_of_mem_signs hs hs'⟩
    | literal hl =>
      obtain ⟨c, v, rfl, hq⟩ := hl.exists_cons
      obtain ⟨rfl, -⟩ := List.cons.inj he
      exact absurd hq (not_isQuote_of_mem_signs hs)
  | literal hl =>
    cases h' with
    | space hc =>
      obtain ⟨c, v, rfl, hq⟩ := hl.exists_cons
      obtain ⟨rfl, -⟩ := List.cons.inj he
      rw [not_isSpace_of_isQuote hq] at hc
      contradiction
    | sign hs =>
      obtain ⟨c, v, rfl, hq⟩ := hl.exists_cons
      obtain ⟨rfl, -⟩ := List.cons.inj he
      exact absurd hq (not_isQuote_of_mem_signs hs)
    | literal hl' =>
      obtain ⟨rfl, rfl⟩ := hl.unique hl' he
      exact ⟨rfl, rfl, rfl⟩

namespace Tokens

theorem single (h : Token p w ss q) : Tokens p w ss q := by
  simpa using Tokens.cons h .nil

theorem append (h : Tokens p t ss q) (h' : Tokens q u ss' r) :
    Tokens p (t ++ u) (ss ++ ss') r := by
  induction h with
  | nil => exact h'
  | cons first _ ih =>
    rw [List.append_assoc, List.append_assoc]
    exact .cons first (ih h')

theorem gap {a : Text} (ha : IsGap a) (h : Tokens p t ss q) : Tokens p (a ++ t) ss q := by
  induction a with
  | nil => exact h
  | cons c a ih =>
    obtain ⟨hc, ha⟩ := List.forall_mem_cons.1 ha
    exact .cons (.space hc) (ih ha)

theorem append_untagged (h : Tokens p t ss q) (h' : Tokens q u [] r) : Tokens p (t ++ u) ss r := by
  have ha := h.append h'
  rwa [List.append_nil] at ha

theorem ofGap {a : Text} (ha : IsGap a) : Tokens q a [] q := by
  have hg := gap ha (.nil (q := q))
  rwa [List.append_nil] at hg

theorem eq_nil (h : Tokens p [] ss q) : ss = [] := by
  generalize ht : [] = t at h
  cases h with
  | nil => rfl
  | cons first _ =>
    obtain ⟨c, v, rfl⟩ := first.exists_cons
    contradiction

/-- Tokens at the start of a text are also the first tokens of the whole. -/
theorem cancel (h : Tokens p t ss q) (h' : Tokens p (t ++ u) ss' r) :
    ∃ more, ss' = ss ++ more ∧ Tokens q u more r := by
  induction h generalizing ss' with
  | nil => exact ⟨ss', rfl, h'⟩
  | @cons p q₁ q w t ss₁ ss₂ first rest ih =>
    rw [List.append_assoc] at h'
    generalize hx : w ++ (t ++ u) = x at h'
    cases h' with
    | nil =>
      obtain ⟨c, v, rfl⟩ := first.exists_cons
      contradiction
    | cons first' rest' =>
      obtain ⟨rfl, rfl, rfl⟩ := first.unique first' hx
      rw [← List.append_cancel_left hx] at rest'
      obtain ⟨more, rfl, hm⟩ := ih rest'
      exact ⟨more, by rw [List.append_assoc], hm⟩

end Tokens

end Tokens

section Grammar

variable {t u : Text} {ss : List Text}

theorem More.tokens (h : More t ss) : Tokens .literal t ss .literal := by
  induction h with
  | nil => exact .nil
  | cons before after literal _ ih =>
    refine .gap before (.cons (.sign (q := .separator) (by decide)) ?_)
    exact .gap after (.cons (.literal literal) ih)

theorem LastComma.tokens (h : LastComma t) :
    ∃ q, Tokens .literal t [] q ∧ (q, ']', .close) ∈ signs := by
  cases h with
  | missing => exact ⟨.literal, .nil, by decide⟩
  | written gap =>
    exact ⟨.separator, .gap gap (.single (.sign (by decide))), by decide⟩

theorem Elements.tokens (h : Elements t ss) :
    ∃ q, Tokens .separator t ss q ∧ (q, ']', .close) ∈ signs := by
  cases h with
  | none => exact ⟨.separator, .nil, by decide⟩
  | some first more last =>
    obtain ⟨q, hq, hs⟩ := last.tokens
    exact ⟨q, .cons (.literal first) (more.tokens.append_untagged hq), hs⟩

/-- What is still to come at a stage of a list, by the grammar. -/
def Tail : Stage → Text → List Text → Prop
  | .marker, t, ss => ∃ a b e c d, t = a ++ '[' :: (b ++ (e ++ (c ++ ']' :: d))) ∧ IsGap a ∧
      IsGap b ∧ Elements e ss ∧ IsGap c ∧ IsGap d
  | .separator, t, ss => ∃ b e c d, t = b ++ (e ++ (c ++ ']' :: d)) ∧ IsGap b ∧ Elements e ss ∧
      IsGap c ∧ IsGap d
  | .literal, t, ss => ∃ m u c d, t = m ++ (u ++ (c ++ ']' :: d)) ∧ More m ss ∧ LastComma u ∧
      IsGap c ∧ IsGap d
  | .close, t, ss => IsGap t ∧ ss = []

theorem IsGap.nil : IsGap [] := by simp [IsGap]

theorem IsGap.cons {c : Char} (hc : isSpace c) (h : IsGap t) : IsGap (c :: t) :=
  List.forall_mem_cons.2 ⟨hc, h⟩

theorem Tail.space {q : Stage} {c : Char} (hc : isSpace c) (h : Tail q t ss) :
    Tail q (c :: t) ss := by
  cases q with
  | marker =>
    obtain ⟨a, b, e, y, d, rfl, ha, h⟩ := h
    exact ⟨c :: a, b, e, y, d, rfl, ha.cons hc, h⟩
  | separator =>
    obtain ⟨b, e, y, d, rfl, hb, h⟩ := h
    exact ⟨c :: b, e, y, d, rfl, hb.cons hc, h⟩
  | literal =>
    -- the space goes to the first gap there is: before a comma, or before the bracket
    obtain ⟨m, u, y, d, rfl, hm, hu, hy, hd⟩ := h
    cases hm with
    | @cons a b w t s ss before after literal rest =>
      exact ⟨_, u, y, d, rfl, .cons (before.cons hc) after literal rest, hu, hy, hd⟩
    | nil =>
      cases hu with
      | @written a gap => exact ⟨[], _, y, d, rfl, .nil, .written (gap.cons hc), hy, hd⟩
      | missing => exact ⟨[], [], c :: y, d, rfl, .nil, .missing, hy.cons hc, hd⟩
  | close =>
    obtain ⟨ht, rfl⟩ := h
    exact ⟨ht.cons hc, rfl⟩

theorem Tail.token {p q : Stage} {w : Text} {ss' : List Text} (h : Token p w ss q)
    (ht : Tail q t ss') : Tail p (w ++ t) (ss ++ ss') := by
  cases h with
  | space hc => exact ht.space hc
  | literal hl =>
    obtain ⟨m, u, y, d, rfl, hm, hu, hy, hd⟩ := ht
    exact ⟨[], _, y, d, by simp, IsGap.nil, .some hl hm hu, hy, hd⟩
  | sign hs =>
    simp only [signs, List.mem_cons, Prod.mk.injEq, List.not_mem_nil, or_false] at hs
    rcases hs with ⟨rfl, rfl, rfl⟩ | ⟨rfl, rfl, rfl⟩ | ⟨rfl, rfl, rfl⟩ | ⟨rfl, rfl, rfl⟩
    · obtain ⟨b, e, y, d, rfl, h⟩ := ht
      exact ⟨[], b, e, y, d, rfl, IsGap.nil, h⟩
    · obtain ⟨ht, rfl⟩ := ht
      exact ⟨[], [], [], t, rfl, IsGap.nil, .none, IsGap.nil, ht⟩
    · obtain ⟨b, e, y, d, rfl, hb, he, hy, hd⟩ := ht
      cases he with
      | none =>
        -- a comma before the closing bracket is the last one
        refine ⟨[], [','], b ++ y, d, by simp, .nil, .written IsGap.nil, ?_, hd⟩
        exact List.forall_mem_append.2 ⟨hb, hy⟩
      | @some w t u s ss first more last =>
        exact ⟨[] ++ ',' :: (b ++ (w ++ t)), u, y, d, by simp, .cons IsGap.nil hb first more, last,
          hy, hd⟩
    · obtain ⟨ht, rfl⟩ := ht
      exact ⟨[], [], [], t, rfl, .nil, .missing, IsGap.nil, ht⟩

theorem Tokens.tail {p : Stage} (h : Tokens p t ss .close) : Tail p t ss := by
  generalize hr : Stage.close = r at h
  induction h with
  | nil =>
    subst hr
    exact ⟨IsGap.nil, rfl⟩
  | cons first _ ih => exact Tail.token first (ih hr)

/-- A line is written by the grammar if tokens lead from its marker to the end of a list. -/
theorem spells_iff {line : Text} :
    Spells line ss ↔ ∃ lead rest, line = lead ++ (marker ++ rest) ∧ (∀ c ∈ lead, isBlank c) ∧
      Tokens .marker rest ss .close := by
  constructor
  · rintro ⟨hl, ha, hb, he, hc, hd⟩
    refine ⟨_, _, rfl, hl, .gap ha (.cons (.sign (q := .separator) (by decide)) (.gap hb ?_))⟩
    obtain ⟨q, hq, hs⟩ := he.tokens
    exact hq.append_untagged (.gap hc (.cons (.sign hs) (.ofGap hd)))
  · rintro ⟨lead, rest, rfl, hl, h⟩
    obtain ⟨a, b, e, c, d, rfl, ha, hb, he, hc, hd⟩ := h.tail
    exact ⟨hl, ha, hb, he, hc, hd⟩

end Grammar

section Reading

variable {t : Text}

theorem exists_skipSpace (t : Text) : ∃ a, IsGap a ∧ t = a ++ skipSpace t :=
  ⟨t.takeWhile isSpace, fun _ hc => List.mem_takeWhile_imp hc,
    List.takeWhile_append_dropWhile.symm⟩

theorem not_isSpace_of_skipSpace (t : Text) : ∀ c ∈ (skipSpace t).head?, isSpace c = false := by
  intro c hc
  have hd := List.head?_dropWhile_not isSpace t
  rw [← skipSpace, Option.mem_def.1 hc] at hd
  simpa using hd

theorem skipSpace_eq_self (h : ∀ c ∈ t.head?, isSpace c = false) : skipSpace t = t := by
  cases t with
  | nil => rfl
  | cons c t => rw [skipSpace, List.dropWhile_cons, h c rfl]; rfl

/-- A comma and the space around it. -/
theorem afterComma?_tokens {r : Text} (h : afterComma? t = some r) :
    ∃ w, t = w ++ r ∧ Tokens .literal w [] .separator := by
  rw [afterComma?] at h
  split at h
  · next r' hr =>
    obtain ⟨a, ha, hta⟩ := exists_skipSpace t
    obtain ⟨b, hb, htb⟩ := exists_skipSpace r'
    obtain rfl := Option.some.inj h
    refine ⟨a ++ ',' :: b, ?_, .gap ha (.cons (.sign (by decide)) (.ofGap hb))⟩
    rw [List.append_assoc, List.cons_append, ← htb, ← hr, ← hta]
  · contradiction

theorem moreLiterals_tokens (t : Text) :
    ∃ w, t = w ++ (moreLiterals t).2 ∧ Tokens .literal w (moreLiterals t).1 .literal ∧
      (afterComma? (moreLiterals t).2).bind literal? = none := by
  induction hn : t.length using Nat.strongRecOn generalizing t with
  | ind n ih =>
    cases h : (afterComma? t).bind literal? with
    | none =>
      rw [moreLiterals_of_none h]
      exact ⟨[], rfl, .nil, h⟩
    | some p =>
      obtain ⟨s, rest⟩ := p
      obtain ⟨r, hr, hl⟩ := Option.bind_eq_some_iff.1 h
      have hlt := Nat.lt_trans (literal?_length_lt hl) (afterComma?_length_lt hr)
      obtain ⟨v, hv, hmore, hend⟩ := ih rest.length (hn ▸ hlt) rest rfl
      obtain ⟨w, rfl, hw⟩ := afterComma?_tokens hr
      obtain ⟨x, hx, rfl⟩ := literal?_eq_some_iff.1 hl
      rw [moreLiterals_of_some h]
      refine ⟨w ++ (x ++ v), ?_, hw.append (.cons (.literal hx) hmore), hend⟩
      rw [List.append_assoc, List.append_assoc, ← hv]

/-- A comma after the last literal, and the space before what comes next. -/
theorem skipComma_tokens (h : (afterComma? t).bind literal? = none) :
    ∃ w q, t = w ++ skipSpace (skipComma t) ∧ Tokens .literal w [] q ∧
      (q = .separator ∧ literal? (skipSpace (skipComma t)) = none ∨
        q = .literal ∧ (skipSpace (skipComma t)).head? ≠ some ',') := by
  cases hr : afterComma? t with
  | some r =>
    obtain ⟨w, hw, htok⟩ := afterComma?_tokens hr
    rw [hr, Option.bind_some] at h
    have he : skipSpace (skipComma t) = r := by
      rw [afterComma?] at hr
      split at hr
      · next r' hs =>
        rw [skipComma, hs]
        exact Option.some.inj hr
      · contradiction
    rw [he]
    exact ⟨w, .separator, hw, htok, .inl ⟨rfl, h⟩⟩
  | none =>
    have hc : (skipSpace t).head? ≠ some ',' := by
      intro hc
      obtain ⟨r, hs⟩ := List.head?_eq_some_iff.1 hc
      rw [afterComma?, hs] at hr
      contradiction
    have he : skipComma t = t := by
      rw [skipComma]
      split
      · next r hs =>
        rw [hs] at hc
        exact absurd rfl hc
      · rfl
    obtain ⟨a, ha, hta⟩ := exists_skipSpace t
    rw [he]
    exact ⟨a, .literal, hta, .ofGap ha, .inr ⟨rfl, hc⟩⟩

/-- The literals of a list with their commas, up to the place where the closing bracket is
expected. -/
theorem literals_tokens (ht : ∀ c ∈ t.head?, isSpace c = false) {rest : Text}
    (hr : skipSpace (if (literals t).1.isEmpty then (literals t).2
      else skipComma (literals t).2) = rest) :
    ∃ w q, t = w ++ rest ∧ Tokens .separator w (literals t).1 q ∧
      (q = .separator ∧ literal? rest = none ∨ q = .literal ∧ rest.head? ≠ some ',') := by
  cases hl : literal? t with
  | none =>
    have he : literals t = ([], t) := by rw [literals, hl]
    simp only [he, List.isEmpty_nil, if_true, skipSpace_eq_self ht] at hr
    subst hr
    rw [he]
    exact ⟨[], .separator, rfl, .nil, .inl ⟨rfl, hl⟩⟩
  | some p =>
    obtain ⟨s, more⟩ := p
    have he : literals t = (s :: (moreLiterals more).1, (moreLiterals more).2) := by
      rw [literals, hl]
    simp only [he, List.isEmpty_cons, Bool.false_eq_true, if_false] at hr
    obtain ⟨x, hx, rfl⟩ := literal?_eq_some_iff.1 hl
    obtain ⟨v, hv, hmore, hend⟩ := moreLiterals_tokens more
    obtain ⟨w, q, hw, hlast, hq⟩ := skipComma_tokens hend
    rw [hr] at hw hq
    rw [he]
    refine ⟨x ++ (v ++ w), q, ?_, .cons (.literal hx) (hmore.append_untagged hlast), hq⟩
    rw [List.append_assoc, List.append_assoc, ← hw, ← hv]

/-- At this stage, nothing that may come next stands at the start of the text. -/
structure Stuck (q : Stage) (t : Text) : Prop where
  refused : ∀ {w ss r}, Token q w ss r → ¬ w <+: t
  unfinished : q = .close → t ≠ []

theorem stuck_of_head {q : Stage} (hs : ∀ c ∈ t.head?, isSpace c = false)
    (hm : ∀ c ∈ t.head?, ∀ r, (q, c, r) ∉ signs) (hl : q = .separator → literal? t = none)
    (hn : q = .close → t ≠ []) : Stuck q t := by
  refine ⟨fun {w ss r} h hp => ?_, hn⟩
  obtain ⟨u, rfl⟩ := hp
  cases h with
  | space hc =>
    rw [hs _ rfl] at hc
    contradiction
  | sign h => exact hm _ rfl r h
  | literal h =>
    have hl := hl rfl
    rw [literal?_eq_some_iff.2 ⟨w, h, rfl⟩] at hl
    contradiction

theorem Stuck.not_tokens {q : Stage} (h : Stuck q t) {ss : List Text} : ¬ Tokens q t ss .close := by
  intro ht
  cases ht with
  | nil => exact h.unfinished rfl rfl
  | cons first _ => exact h.refused first (List.prefix_append _ _)

/-- After the literals there is the closing bracket, or nothing fits. -/
theorem closing_cases {q : Stage} (hs : ∀ c ∈ t.head?, isSpace c = false)
    (hq : q = .separator ∧ literal? t = none ∨ q = .literal ∧ t.head? ≠ some ',') :
    (∃ rest, t = ']' :: rest ∧ (q, ']', .close) ∈ signs) ∨
      ((∀ rest, t ≠ ']' :: rest) ∧ Stuck q t) := by
  by_cases hc : t.head? = some ']'
  · obtain ⟨rest, rfl⟩ := List.head?_eq_some_iff.1 hc
    refine .inl ⟨rest, rfl, ?_⟩
    rcases hq with ⟨rfl, -⟩ | ⟨rfl, -⟩ <;> decide
  · refine .inr ⟨?_, ?_⟩
    · rintro rest rfl
      exact hc rfl
    · rcases hq with ⟨rfl, hl⟩ | ⟨rfl, hn⟩
      · apply stuck_of_head hs _ (fun _ => hl) (by simp)
        intro c hm p hp
        obtain ⟨rfl, -⟩ : c = ']' ∧ p = .close := by simpa [signs] using hp
        exact hc hm
      · apply stuck_of_head hs _ (by simp) (by simp)
        intro c hm p hp
        obtain ⟨rfl, -⟩ | ⟨rfl, -⟩ : c = ',' ∧ p = .separator ∨ c = ']' ∧ p = .close := by
          simpa [signs] using hp
        · exact hn hm
        · exact hc hm

/-- A list is read to its closing bracket, or up to the first place where no token fits. -/
theorem list_cases (ht : ∀ c ∈ t.head?, isSpace c = false) :
    (∃ w ss rest, list t = .ok (ss, rest) ∧ t = w ++ rest ∧ Tokens .marker w ss .close) ∨
      ∃ w ss q rest, list t = .error rest ∧ t = w ++ rest ∧ Tokens .marker w ss q ∧
        Stuck q rest := by
  by_cases hb : t.head? = some '['
  · obtain ⟨r, rfl⟩ := List.head?_eq_some_iff.1 hb
    obtain ⟨a, ha, hra⟩ := exists_skipSpace r
    generalize hr : skipSpace (if (literals (skipSpace r)).1.isEmpty then (literals (skipSpace r)).2
      else skipComma (literals (skipSpace r)).2) = rest
    obtain ⟨w, q, hw, htok, hq⟩ := literals_tokens (not_isSpace_of_skipSpace r) hr
    have hopen : Tokens .marker ('[' :: (a ++ w)) (literals (skipSpace r)).1 q :=
      .cons (.sign (by decide)) (.gap ha htok)
    have hcut : '[' :: r = '[' :: (a ++ w) ++ rest := by
      rw [List.cons_append, List.append_assoc, ← hw, ← hra]
    rcases closing_cases (hr ▸ not_isSpace_of_skipSpace _) hq with ⟨more, rfl, hs⟩ | ⟨hn, hstuck⟩
    · refine .inl ⟨'[' :: (a ++ w) ++ [']'], _, more, list_eq_ok_iff.2 ⟨r, rfl, rfl, hr⟩, ?_,
        hopen.append_untagged (.single (.sign hs))⟩
      rw [hcut, List.append_assoc]
      rfl
    · refine .inr ⟨'[' :: (a ++ w), _, q, rest, ?_, hcut, hopen, hstuck⟩
      rw [list]
      simp only [hr]
  · refine .inr ⟨[], [], .marker, t, ?_, rfl, .nil, stuck_of_head ht ?_ (by simp) (by simp)⟩
    · rw [list]
      rintro r rfl
      exact hb rfl
    · intro c hc p hp
      obtain ⟨rfl, -⟩ : c = '[' ∧ p = .separator := by simpa [signs] using hp
      exact hb hc

theorem trimStart_marker {lead : Text} (h : ∀ c ∈ lead, isBlank c) (rest : Text) :
    Text.trimStart (lead ++ (marker ++ rest)) = marker ++ rest := by
  have hm : marker ++ rest = ':' :: ("tags:".toList ++ rest) := rfl
  rw [Text.trimStart_append_of_blank h, hm, Text.trimStart, List.dropWhile_cons_of_neg (by decide)]

/-- A line with the marker is read to the end of its list, or up to the first place where no token
fits. -/
theorem read_cases {lead : Text} (h : ∀ c ∈ lead, isBlank c) (rest : Text) :
    (∃ ss, read (lead ++ (marker ++ rest)) = .ok ss.eraseDups ∧ Tokens .marker rest ss .close) ∨
      ∃ w ss q stop reason, read (lead ++ (marker ++ rest)) = .error (stop, reason) ∧
        rest = w ++ stop ∧ Tokens .marker w ss q ∧ Stuck q stop := by
  obtain ⟨a, ha, hra⟩ := exists_skipSpace rest
  rw [read, trimStart_marker h, List.isPrefixOf?_eq_some_iff_append_eq.2 rfl]
  simp only
  rcases list_cases (not_isSpace_of_skipSpace rest) with
    ⟨w, ss, more, hl, hw, htok⟩ | ⟨w, ss, q, stop, hl, hw, htok, hstuck⟩
  · obtain ⟨b, hb, hmb⟩ := exists_skipSpace more
    have hs := not_isSpace_of_skipSpace more
    have hread : Tokens .marker (a ++ (w ++ b)) ss .close :=
      .gap ha (htok.append_untagged (.ofGap hb))
    have hcut : rest = a ++ (w ++ b) ++ skipSpace more := by
      rw [List.append_assoc, List.append_assoc, ← hmb, ← hw, ← hra]
    simp only [hl]
    cases hm : skipSpace more with
    | nil =>
      rw [hm, List.append_nil] at hcut
      exact .inl ⟨ss, rfl, hcut ▸ hread⟩
    | cons c r =>
      rw [hm] at hcut hs
      refine .inr ⟨_, ss, .close, c :: r, _, rfl, hcut, hread, ?_⟩
      exact stuck_of_head hs (by simp [signs]) (by simp) (by simp)
  · rw [hl]
    refine .inr ⟨a ++ w, ss, q, stop, _, rfl, ?_, .gap ha htok, hstuck⟩
    rw [List.append_assoc, ← hw, ← hra]

/-- A line with the marker is accepted if and only if tokens lead to the end of a list. -/
theorem parse_eq_ok_iff_tokens {lead : Text} (h : ∀ c ∈ lead, isBlank c) {rest : Text}
    {tags : List Text} :
    parse (lead ++ (marker ++ rest)) = .ok tags ↔
      ∃ ss, Tokens .marker rest ss .close ∧ tags = ss.eraseDups := by
  rw [parse]
  rcases read_cases h rest with ⟨ss, hread, htok⟩ | ⟨w, ss, q, stop, reason, hread, rfl, hw, hs⟩
  · rw [hread]
    constructor
    · intro ht
      exact ⟨ss, htok, (Except.ok.inj ht).symm⟩
    · -- two readings of one text take the same tokens
      rintro ⟨ss', htok', rfl⟩
      rw [← List.append_nil rest] at htok'
      obtain ⟨more, rfl, hmore⟩ := htok.cancel htok'
      rw [hmore.eq_nil, List.append_nil]
      rfl
  · rw [hread]
    constructor
    · intro ht
      contradiction
    · rintro ⟨ss', htok', -⟩
      obtain ⟨more, -, hmore⟩ := hw.cancel htok'
      exact absurd hmore hs.not_tokens

theorem exists_marker {line : Text} (h : marker <+: line.trimStart) :
    ∃ lead rest, line = lead ++ (marker ++ rest) ∧ ∀ c ∈ lead, isBlank c := by
  obtain ⟨rest, hr⟩ := h
  refine ⟨line.takeWhile isBlank, rest, ?_, fun c hc => List.mem_takeWhile_imp hc⟩
  rw [hr]
  exact List.takeWhile_append_dropWhile.symm

end Reading

/-- The parser accepts a line if and only if it is written by the grammar, and the tags are the
values of its literals without the later repetitions. -/
theorem parse_accepts_iff (line : Text) (tags : List Text) :
    parse line = .ok tags ↔ ∃ ss, Spells line ss ∧ FirstSeen ss tags := by
  simp only [firstSeen_iff, spells_iff]
  constructor
  · intro h
    obtain ⟨rest, -, -, hr, -⟩ := parse_eq_ok_iff.1 h
    obtain ⟨lead, rest, rfl, hl⟩ := exists_marker ⟨rest, hr.symm⟩
    obtain ⟨ss, htok, rfl⟩ := (parse_eq_ok_iff_tokens hl).1 h
    exact ⟨ss, ⟨lead, rest, rfl, hl, htok⟩, rfl⟩
  · rintro ⟨ss, ⟨lead, rest, rfl, hl, htok⟩, rfl⟩
    exact (parse_eq_ok_iff_tokens hl).2 ⟨ss, htok, rfl⟩

end FencedCode.Tags
