import FencedCode.Proofs.Tidying

/-! What tidying keeps of a source: all characters but white space, commas and the signs of
comments, up to the choice of quotes. Only a call that is broken up can lose some of them, where it
is not read as code is. -/
namespace FencedCode.Tidy

/-- The characters of a text that count. -/
def isSubstance (c : Char) : Bool := !isBlank c && c != ',' && c != '#'

/-- The two quotes count as the same. -/
def sameQuote (c : Char) : Char := if isQuote c then '"' else c

def substance (t : Text) : Text := (t.filter isSubstance).map sameQuote

section Substance

variable {c : Char} {t u : Text}

@[simp] theorem substance_nil : substance [] = [] := rfl

@[simp] theorem substance_append (t u : Text) :
    substance (t ++ u) = substance t ++ substance u := by
  rw [substance, List.filter_append, List.map_append]
  rfl

theorem substance_cons (c : Char) (t : Text) : substance (c :: t) = substance [c] ++ substance t :=
  substance_append [c] t

theorem substance_singleton_of_isBlank (h : isBlank c) : substance [c] = [] := by
  simp [substance, isSubstance, h]

@[simp] theorem substance_space : substance [' '] = [] := rfl

@[simp] theorem substance_comma : substance [','] = [] := rfl

@[simp] theorem substance_feed : substance ['\n'] = [] := rfl

theorem substance_of_isBlank (h : ∀ c ∈ t, isBlank c) : substance t = [] := by
  induction t with
  | nil => rfl
  | cons c t ih =>
    obtain ⟨hc, ht⟩ := List.forall_mem_cons.1 h
    rw [substance_cons, substance_singleton_of_isBlank hc, ih ht]
    rfl

theorem substance_trimStart (t : Text) : substance t.trimStart = substance t := by
  conv_rhs => rw [← List.takeWhile_append_dropWhile (p := isBlank) (l := t), substance_append,
    substance_of_isBlank fun c hc => List.mem_takeWhile_imp hc]
  rfl

@[simp] theorem substance_trim (t : Text) : substance t.trim = substance t := by
  obtain ⟨u, hu, hb⟩ := t.trimStart.exists_trimEnd_append
  have hs := congrArg substance hu
  rw [substance_append, substance_of_isBlank hb, List.append_nil, substance_trimStart] at hs
  exact hs.symm

/-- The substance of a text is that of its lines. -/
theorem flatMap_substance_lines (t : Text) : t.lines.flatMap substance = substance t := by
  have hl : ∀ l : Line, substance l.text = substance l.content := by
    rintro ⟨c, e⟩
    rw [Line.text, substance_append]
    cases e <;> exact List.append_nil _
  have hj : ∀ ls : List Line,
      substance (joinLines ls) = (ls.map Line.content).flatMap substance := by
    intro ls
    induction ls with
    | nil => rfl
    | cons l ls ih =>
      rw [joinLines_cons, substance_append, hl, ih, List.map_cons, List.flatMap_cons]
  rw [Text.lines, ← hj, Text.joinLines_splitLines]

end Substance

section Settle

variable {normalize : Bool}

@[simp] theorem substance_requote (l : Text) : substance (requote l) = substance l := by
  unfold requote
  split
  · next r =>
    split
    · next inner hr =>
      split_ifs
      · rfl
      · have he : r = inner.reverse ++ ['\''] := by
          rw [← List.reverse_reverse r, hr, List.reverse_cons]
        rw [he, substance_cons '\'']
        simp only [substance_append]
        rfl
    · rfl
  · rfl

theorem substance_addSpace (out : Text) (due : Bool) :
    substance (addSpace out due).reverse = substance out.reverse := by
  unfold addSpace
  split
  · rfl
  · split_ifs
    · rw [List.reverse_cons, substance_append, substance_space, List.append_nil]
    · rfl

theorem substance_addLiteral (out : Text) (due : Bool) (l : Text) :
    substance (settleFrom.addLiteral normalize out due l).reverse =
      substance out.reverse ++ substance l := by
  rw [settleFrom.addLiteral, List.reverse_append, substance_append, substance_addSpace,
    List.reverse_reverse]
  split_ifs
  · rw [substance_requote]
  · rfl

/-- What has been read of a literal. -/
def Reading.text : Reading → Text
  | .code => []
  | .literal _ _ read => read.reverse

theorem substance_settleFrom (out : Text) (due : Bool) (reading : Reading) (t : Text) :
    substance (settleFrom normalize out due reading t) =
      substance out.reverse ++ substance (reading.text ++ t) := by
  fun_induction settleFrom normalize out due reading t with
  | case1 out due => simp [Reading.text]
  | case2 out due q escaped read => rw [substance_addLiteral, Reading.text, List.append_nil]
  | case3 out due q escaped read c r h ih =>
    rw [ih, substance_addLiteral, List.append_assoc, ← substance_append]
    simp [Reading.text]
  | case4 out due q escaped read c r h ih =>
    rw [ih]
    simp [Reading.text]
  | case5 out due c r h ih =>
    rw [ih]
    rfl
  | case6 out due r h ih =>
    rw [ih, List.reverse_cons, substance_append, substance_comma, List.append_nil]
    simp only [Reading.text, List.nil_append, substance_cons ',' r, substance_comma]
  | case7 out due c r _ _ _ ih =>
    rw [ih, List.reverse_cons, substance_append, List.append_assoc]
    simp only [Reading.text, List.nil_append, substance_cons c r]
  | case8 out due c r _ _ _ hb ih =>
    rw [ih]
    simp only [Reading.text, List.nil_append, substance_cons c r, substance_singleton_of_isBlank hb]
  | case9 out due c r _ _ _ _ ih =>
    rw [ih, List.reverse_cons, substance_append, substance_addSpace, List.append_assoc]
    simp only [Reading.text, List.nil_append, substance_cons c r]

/-- Settling changes neither characters that count nor their order. -/
@[simp] theorem substance_settle (normalize : Bool) (t : Text) :
    substance (settle normalize t) = substance t := by
  rw [settle, substance_settleFrom]
  rfl

end Settle

section Comments

theorem splitCommentFrom_append (acc : Text) (mode : Mode) (t : Text) :
    (splitCommentFrom acc mode t).1 ++ (splitCommentFrom acc mode t).2.getD [] =
      acc.reverse ++ t := by
  fun_induction splitCommentFrom acc mode t with
  | case1 => rfl
  | case2 acc q escaped c r ih =>
    rw [ih, List.reverse_cons, List.append_assoc]
    rfl
  | case3 acc r => rfl
  | case4 acc c r _ ih =>
    rw [ih, List.reverse_cons, List.append_assoc]
    rfl

/-- Code and comment together are the text. -/
theorem splitComment_append (t : Text) :
    (splitComment t).1 ++ (splitComment t).2.getD [] = t := splitCommentFrom_append [] .code t

@[simp] theorem substance_tidyComment (c : Text) : substance (tidyComment c) = substance c := by
  have hd : substance (c.dropWhile (· == '#')) = substance c := by
    conv_rhs => rw [← List.takeWhile_append_dropWhile (p := (· == '#')) (l := c),
      Text.takeWhile_eq_replicate, substance_append]
    rw [show ∀ n, substance (List.replicate n '#') = [] by simp [substance, isSubstance]]
    rfl
  rw [tidyComment]
  split_ifs with hb
  · have ht := substance_trim (c.dropWhile (· == '#'))
    rw [List.isEmpty_iff.1 hb, hd] at ht
    exact ht
  · rw [substance_cons, substance_cons ' ', substance_trim, hd]
    rfl

theorem substance_tidied (normalize : Bool) (t : Text) :
    substance (tidied normalize t) = substance t := by
  conv_rhs => rw [← splitComment_append t, substance_append]
  rw [tidied]
  cases (splitComment t).2 with
  | none => exact (substance_settle ..).trans (List.append_nil _).symm
  | some comment =>
    rw [← substance_settle normalize (splitComment t).1, Option.getD_some,
      ← substance_tidyComment comment]
    dsimp only
    split_ifs with hc
    · rw [List.isEmpty_iff.1 hc]
      rfl
    · rw [substance_append, substance_cons, substance_cons ' ']
      rfl

end Comments

/-- The inside of a call, as long as strings have no escapes and all brackets are of one kind. -/
inductive Enclosed : Text → Prop
  | nil : Enclosed []
  | char {c : Char} {t : Text} (quote : isQuote c = false) (bracket : isBracket c = false)
      (rest : Enclosed t) : Enclosed (c :: t)
  | string {q : Char} {i t : Text} (quote : isQuote q) (inside : q ∉ i) (rest : Enclosed t) :
      Enclosed (q :: (i ++ q :: t))
  | group {o c : Char} {i t : Text} (opening : isOpening o) (closing : isClosing c)
      (inside : Enclosed i) (rest : Enclosed t) : Enclosed (o :: (i ++ c :: t))

/-- Whether the last character is the first closing bracket for which none is open inside. -/
def closesLast (depth : Nat) (quote : Option Char) : Text → Bool
  | [] => false
  | c :: r =>
    match quote with
    | some q => closesLast depth (if c = q then none else some q) r
    | none =>
      if isQuote c then closesLast depth (some c) r
      else if isOpening c then closesLast (depth + 1) none r
      else if isClosing c then if depth = 0 then r.isEmpty else closesLast (depth - 1) none r
      else closesLast depth none r

section Calls

variable {depth : Nat} {quote : Option Char} {arg r t : Text} {args : List Text}

theorem getLast?_cons_cases {c : Char} (h : (c :: r).getLast? = some ')') :
    (r = [] ∧ c = ')') ∨ r.getLast? = some ')' := by
  cases r with
  | nil => exact .inl ⟨rfl, by simpa using h⟩
  | cons d r =>
    rw [List.getLast?_cons_cons] at h
    exact .inr h

/-- An open bracket or quote counts as well as the bracket at the end. -/
theorem one_lt_length_substance {c : Char} (h : ∃ d ∈ arg, isOpening d ∨ isQuote d)
    (hc : c = ')') : 0 + 1 < (substance (arg.reverse ++ [c])).length := by
  obtain ⟨d, hd, ho⟩ := h
  have hs : isSubstance d := by
    rcases ho with ho | hq
    · rcases isOpening_iff.1 ho with rfl | rfl | rfl <;> decide
    · rcases isQuote_iff.1 hq with rfl | rfl <;> decide
  have hl : 0 < (substance arg.reverse).length := by
    rw [substance, List.length_map]
    exact List.length_pos_of_mem (List.mem_filter.2 ⟨List.mem_reverse.2 hd, hs⟩)
  rw [substance_append, List.length_append, hc]
  change 0 + 1 < (substance arg.reverse).length + 1
  omega

/-- The arguments of a call hold all that counts in it, up to its closing bracket; if that is not
found, they lack more than a bracket. -/
theorem argumentsFrom_cases (h : argumentsFrom depth quote arg r = some args)
    (hr : r.getLast? = some ')')
    (ha : 0 < depth ∨ quote.isSome → ∃ c ∈ arg, isOpening c ∨ isQuote c) :
    (closesLast depth quote r = true ∧
        args.flatMap substance ++ [')'] = substance (arg.reverse ++ r)) ∨
      (closesLast depth quote r = false ∧
        (args.flatMap substance).length + 1 < (substance (arg.reverse ++ r)).length) := by
  have push : ∀ (c : Char) (arg r : Text), arg.reverse ++ c :: r = (c :: arg).reverse ++ r := by
    simp
  have more : ∀ {c : Char} {arg : Text}, (∃ d ∈ arg, isOpening d ∨ isQuote d) →
      ∃ d ∈ c :: arg, isOpening d ∨ isQuote d := by
    rintro c arg ⟨d, hd, ho⟩
    exact ⟨d, List.mem_cons_of_mem c hd, ho⟩
  fun_induction argumentsFrom depth quote arg r generalizing args with
  | case1 => contradiction
  | case2 depth arg c r q ih =>
    rw [closesLast]
    rcases getLast?_cons_cases hr with ⟨rfl, hc⟩ | hr
    · obtain rfl := Option.some.inj h
      exact .inr ⟨rfl, one_lt_length_substance (ha (.inr rfl)) hc⟩
    · rw [push]
      exact ih h hr fun _ => more (ha (.inr rfl))
  | case3 depth arg c r hq ih =>
    rw [closesLast, if_pos hq]
    rcases getLast?_cons_cases hr with ⟨-, rfl⟩ | hr
    · contradiction
    · rw [push]
      exact ih h hr fun _ => ⟨c, List.mem_cons_self, .inr hq⟩
  | case4 depth arg c r hq ho ih =>
    rw [closesLast, if_neg hq, if_pos ho]
    rcases getLast?_cons_cases hr with ⟨-, rfl⟩ | hr
    · contradiction
    · rw [push]
      exact ih h hr fun _ => ⟨c, List.mem_cons_self, .inl ho⟩
  | case5 arg c r hq ho hc he =>
    rw [closesLast, if_neg hq, if_neg ho, if_pos hc, if_pos rfl]
    obtain rfl := List.isEmpty_iff.1 he
    obtain rfl := Option.some.inj h
    obtain rfl : c = ')' := by simpa using hr
    refine .inl ⟨rfl, ?_⟩
    rw [substance_append, List.flatMap_singleton, substance_trim]
    rfl
  | case6 => contradiction
  | case7 arg c r hq ho hc depth ih =>
    rw [closesLast, if_neg hq, if_neg ho, if_pos hc, if_neg (Nat.succ_ne_zero depth)]
    rcases getLast?_cons_cases hr with ⟨rfl, hc⟩ | hr
    · obtain rfl := Option.some.inj h
      exact .inr ⟨rfl, one_lt_length_substance (ha (.inl (Nat.succ_pos _))) hc⟩
    · rw [push]
      exact ih h hr fun _ => more (ha (.inl (Nat.succ_pos _)))
  | case8 depth arg c r hq ho hc hm ih =>
    obtain ⟨rfl, hd⟩ : c = ',' ∧ depth = 0 := by simpa using hm
    subst hd
    rw [closesLast, if_neg hq, if_neg ho, if_neg hc]
    obtain ⟨more, hmore, rfl⟩ := Option.map_eq_some_iff.1 h
    have hr : r.getLast? = some ')' := (getLast?_cons_cases hr).resolve_left (by simp)
    have hs : substance (arg.reverse ++ ',' :: r) = substance arg.reverse ++ substance r := by
      rw [substance_append, substance_cons, substance_comma, List.nil_append]
    rw [hs, List.flatMap_cons, substance_trim]
    rcases ih hmore hr (by simp) with ⟨hcl, he⟩ | ⟨hcl, he⟩
    · rw [List.append_assoc, he]
      exact .inl ⟨hcl, rfl⟩
    · refine .inr ⟨hcl, ?_⟩
      rw [List.reverse_nil, List.nil_append] at he
      rw [List.length_append, List.length_append]
      omega
  | case9 depth arg c r hq ho hc hm ih =>
    rw [closesLast, if_neg hq, if_neg ho, if_neg hc]
    rcases getLast?_cons_cases hr with ⟨-, rfl⟩ | hr
    · exact absurd rfl hc
    · rw [push]
      exact ih h hr fun hd => more (ha hd)

theorem Enclosed.append (ht : Enclosed t) (hr : Enclosed r) : Enclosed (t ++ r) := by
  induction ht with
  | nil => exact hr
  | char hq hb _ ih => exact .char hq hb ih
  | string hq hi _ ih =>
    rw [List.cons_append, List.append_assoc, List.cons_append]
    exact .string hq hi ih
  | group ho hc hi _ _ ih =>
    rw [List.cons_append, List.append_assoc, List.cons_append]
    exact .group ho hc hi ih

/-- What is left of a call with `depth` brackets open in it, up to its closing bracket. -/
inductive Ends : Nat → Text → Prop
  | last {t : Text} {c : Char} (body : Enclosed t) (closing : isClosing c) : Ends 0 (t ++ [c])
  | more {depth : Nat} {t r : Text} {c : Char} (body : Enclosed t) (closing : isClosing c)
      (rest : Ends depth r) : Ends (depth + 1) (t ++ c :: r)

theorem Ends.prepend (ht : Enclosed t) (hr : Ends depth r) : Ends depth (t ++ r) := by
  cases hr with
  | last body closing =>
    rw [← List.append_assoc]
    exact .last (ht.append body) closing
  | more body closing rest =>
    rw [← List.append_assoc]
    exact .more (ht.append body) closing rest

theorem Ends.group {o : Char} (ho : isOpening o) (hr : Ends (depth + 1) r) :
    Ends depth (o :: r) := by
  cases hr with
  | @more _ t r c body closing rest =>
    have hg : Enclosed (o :: (t ++ c :: [])) := .group ho closing body .nil
    have he := rest.prepend hg
    rwa [List.cons_append, List.append_assoc, List.singleton_append] at he

/-- The same from within a string, if there is one. -/
def EndsAfter (depth : Nat) : Option Char → Text → Prop
  | none, r => Ends depth r
  | some q, r => ∃ i t, r = i ++ q :: t ∧ q ∉ i ∧ Ends depth t

theorem ends_of_closesLast (h : closesLast depth quote r = true) : EndsAfter depth quote r := by
  fun_induction closesLast depth quote r with
  | case1 => contradiction
  | case2 depth c r q ih =>
    by_cases hc : c = q
    · rw [if_pos hc] at ih h
      exact ⟨[], r, by rw [hc, List.nil_append], by simp, ih h⟩
    · rw [if_neg hc] at ih h
      obtain ⟨i, t, rfl, hi, ht⟩ := ih h
      refine ⟨c :: i, t, rfl, ?_, ht⟩
      rw [List.mem_cons, not_or]
      exact ⟨Ne.symm hc, hi⟩
  | case3 depth c r hq ih =>
    obtain ⟨i, t, rfl, hi, ht⟩ := ih h
    have hs : Enclosed (c :: (i ++ c :: [])) := .string hq hi .nil
    have he := ht.prepend hs
    rwa [List.cons_append, List.append_assoc, List.singleton_append] at he
  | case4 depth c r hq ho ih => exact Ends.group ho (ih h)
  | case5 c r hq ho hc =>
    rw [List.isEmpty_iff.1 h]
    exact .last (t := []) .nil hc
  | case6 depth c r hq ho hc hd ih =>
    obtain ⟨d, rfl⟩ := Nat.exists_eq_succ_of_ne_zero hd
    exact .more (t := []) .nil hc (ih h)
  | case7 depth c r hq ho hc ih =>
    have hb : isBracket c = false := by simp [isBracket, ho, hc]
    exact Ends.prepend (.char (by simpa using hq) hb .nil) (ih h)

theorem closesLast_string {q : Char} {i : Text} (hi : q ∉ i) (r : Text) :
    closesLast depth (some q) (i ++ q :: r) = closesLast depth none r := by
  induction i with
  | nil => rw [List.nil_append, closesLast, if_pos rfl]
  | cons c i ih =>
    rw [List.mem_cons, not_or] at hi
    rw [List.cons_append, closesLast, if_neg (Ne.symm hi.1), ih hi.2]

theorem Enclosed.closesLast_append (ht : Enclosed t) (depth : Nat) (r : Text) :
    closesLast depth none (t ++ r) = closesLast depth none r := by
  induction ht generalizing depth r with
  | nil => rfl
  | char hq hb _ ih =>
    rw [isBracket, Bool.or_eq_false_iff] at hb
    rw [List.cons_append, closesLast, hq, hb.1, hb.2]
    exact ih depth r
  | string hq hi _ ih =>
    rw [List.cons_append, closesLast, if_pos hq, List.append_assoc, List.cons_append,
      closesLast_string hi, ih]
  | @group o c i t ho hc _ _ ihi iht =>
    obtain ⟨p, hp⟩ := Option.isSome_iff_exists.1 hc
    rw [List.cons_append, closesLast, isQuote_of_isBracket (isBracket_of_isOpening ho),
      if_neg Bool.false_ne_true, if_pos ho, List.append_assoc, ihi, List.cons_append, closesLast,
      isQuote_of_isBracket (isBracket_of_partner? hp), if_neg Bool.false_ne_true,
      not_isOpening_of_partner? hp, if_neg Bool.false_ne_true, if_pos hc,
      if_neg (Nat.succ_ne_zero depth), Nat.add_sub_cancel, iht]

/-- The last character closes the call exactly if what comes before it is enclosed. -/
theorem closesLast_iff (hr : r.getLast? = some ')') :
    closesLast 0 none r = true ↔ ∃ body, r = body ++ [')'] ∧ Enclosed body := by
  constructor
  · intro h
    cases ends_of_closesLast h with
    | @last t c body closing =>
      obtain rfl : c = ')' := by simpa using hr
      exact ⟨t, rfl, body⟩
  · rintro ⟨body, rfl, hb⟩
    rw [hb.closesLast_append]
    rfl

theorem flatMap_substance_filter (args : List Text) :
    (args.filter (!·.isEmpty)).flatMap substance = args.flatMap substance := by
  induction args with
  | nil => rfl
  | cons a args ih =>
    cases a with
    | nil => exact ih
    | cons c a => rw [List.filter_cons_of_pos rfl, List.flatMap_cons, List.flatMap_cons, ih]

/-- A call that is broken up keeps all that counts if its last character closes it, and otherwise
loses some of it. -/
theorem explode_cases {code head : Text} (h : explode code = some (head, args)) :
    ∃ r, code = head ++ '(' :: r ∧ '(' ∉ head ∧
      (((∃ body, r = body ++ [')'] ∧ Enclosed body) ∧
          args.flatMap substance ++ [')'] = substance r) ∨
        (¬ (∃ body, r = body ++ [')'] ∧ Enclosed body) ∧
          (args.flatMap substance).length + 1 < (substance r).length)) := by
  have hcode := List.takeWhile_append_dropWhile (p := (· != '(')) (l := code)
  have hd := List.head?_dropWhile_not (· != '(') code
  have hp : '(' ∉ code.takeWhile (· != '(') := fun hm => by simpa using List.mem_takeWhile_imp hm
  rw [explode] at h
  generalize code.takeWhile (· != '(') = front at h hcode hp
  generalize code.dropWhile (· != '(') = back at h hcode hd
  cases back with
  | nil => contradiction
  | cons o r =>
    obtain rfl : o = '(' := by simpa using hd
    dsimp only at h
    split_ifs at h with hn
    rw [Bool.or_eq_true, not_or, bne_iff_ne, not_not] at hn
    have hr : r.getLast? = some ')' := by
      have hl := hn.2
      rw [← hcode, List.getLast?_append_of_ne_nil _ (by simp)] at hl
      exact (getLast?_cons_cases hl).resolve_left (by simp)
    cases ha : argumentsFrom 0 none [] r with
    | none =>
      simp only [ha] at h
      contradiction
    | some as =>
      simp only [ha] at h
      split_ifs at h
      obtain ⟨rfl, rfl⟩ := Prod.mk.inj (Option.some.inj h)
      refine ⟨r, hcode.symm, hp, ?_⟩
      rw [flatMap_substance_filter, ← closesLast_iff hr, Bool.not_eq_true]
      exact argumentsFrom_cases ha hr (by simp)

end Calls

/-- A statement that stays on one line, or a call that its last character closes also without regard
to escapes and to the kinds of brackets. -/
def Whole (options : FormatOptions) (s : Statement) : Prop :=
  (render options s).length = 1 ∨
    ∃ head body, settle options.stringNormalization (splitComment s.text).1 =
      head ++ '(' :: (body ++ [')']) ∧ '(' ∉ head ∧ Enclosed body

section Statements

variable {options : FormatOptions} {s : Statement}

/-- A text is the same after the first place of a character. -/
theorem eq_of_append_cons {c : Char} {x y t u : Text} (hx : c ∉ x) (hy : c ∉ y)
    (h : x ++ c :: t = y ++ c :: u) : t = u := by
  have drop : ∀ {z : Text}, c ∉ z → ∀ v, (z ++ c :: v).dropWhile (· != c) = c :: v := by
    intro z hz v
    refine Text.dropWhile_append_of_stop (fun d hd => ?_) (by simp)
    rw [bne_iff_ne]
    rintro rfl
    exact hz hd
  have hd := congrArg (List.dropWhile (· != c)) h
  rw [drop hx, drop hy] at hd
  exact (List.cons.inj hd).2

theorem flatMap_substance_brokenLines {indent : Text} (hi : ∀ c ∈ indent, isBlank c) (head : Text)
    (args : List Text) :
    (brokenLines indent head args).flatMap substance =
      substance head ++ '(' :: (args.flatMap substance ++ [')']) := by
  have ha : ∀ arg, substance (indent ++ [' ', ' ', ' ', ' '] ++ arg ++ [',']) = substance arg := by
    intro arg
    have hs : substance [' ', ' ', ' ', ' '] = [] := rfl
    simp only [substance_append, substance_of_isBlank hi, hs, substance_comma, List.nil_append,
      List.append_nil]
  rw [brokenLines, List.cons_append, List.flatMap_cons, List.flatMap_append, List.flatMap_map,
    List.flatMap_singleton, substance_append, substance_append, substance_append,
    substance_of_isBlank hi]
  simp only [ha]
  rw [List.nil_append, List.append_assoc]
  rfl

/-- A call that is broken up is written with all that counts in it if it is whole, and otherwise
with less. -/
theorem substance_render_call (hi : ∀ c ∈ s.indent, isBlank c) {code head : Text}
    {args : List Text} (hs : splitComment s.text = (code, none))
    (hc : call? options s.indent (settle options.stringNormalization code) = some (head, args)) :
    (Whole options s ∧ (render options s).flatMap substance = substance s.text) ∨
      (¬ Whole options s ∧
        ((render options s).flatMap substance).length < (substance s.text).length) := by
  have hr : render options s = brokenLines s.indent head args := by rw [render_of_code hs, hc]
  have he : explode (settle options.stringNormalization code) = some (head, args) := by
    rw [call?] at hc
    split_ifs at hc
    exact hc
  obtain ⟨r, hcode, hp, hcases⟩ := explode_cases he
  have hw : Whole options s ↔ ∃ body, r = body ++ [')'] ∧ Enclosed body := by
    rw [Whole, hs, hr, hcode]
    constructor
    · rintro (hl | ⟨head', body, he, hp', hb⟩)
      · simp [brokenLines] at hl
      · exact ⟨body, eq_of_append_cons hp hp' he, hb⟩
    · rintro ⟨body, rfl, hb⟩
      exact .inr ⟨head, body, rfl, hp, hb⟩
  have hsub : substance s.text = substance head ++ '(' :: substance r := by
    have ht := splitComment_append s.text
    rw [hs, Option.getD_none, List.append_nil] at ht
    rw [← ht, ← substance_settle options.stringNormalization code, hcode, substance_append,
      substance_cons]
    rfl
  rw [hw, hr, hsub, flatMap_substance_brokenLines hi]
  rcases hcases with ⟨hb, ha⟩ | ⟨hb, ha⟩
  · exact .inl ⟨hb, by rw [ha]⟩
  · refine .inr ⟨hb, ?_⟩
    simp only [List.length_append, List.length_cons, List.length_nil]
    omega

/-- A statement is written with all that counts in it if it is whole, and otherwise with less. -/
theorem substance_render (options : FormatOptions) (hi : ∀ c ∈ s.indent, isBlank c) :
    (Whole options s ∧ (render options s).flatMap substance = substance s.text) ∨
      (¬ Whole options s ∧
        ((render options s).flatMap substance).length < (substance s.text).length) := by
  have one : render options s = [s.indent ++ tidied options.stringNormalization s.text] →
      Whole options s ∧ (render options s).flatMap substance = substance s.text := by
    intro hr
    refine ⟨.inl (by rw [hr]; rfl), ?_⟩
    rw [hr, List.flatMap_singleton, substance_append, substance_of_isBlank hi, List.nil_append,
      substance_tidied]
  cases hs : splitComment s.text with
  | mk code comment =>
    cases comment with
    | some comment => exact .inl (one (render_of_comment hs))
    | none =>
      cases hc : call? options s.indent (settle options.stringNormalization code) with
      | none => exact .inl (one (by rw [render_of_code hs, hc]))
      | some call => exact substance_render_call hi hs hc

/-- The statements of a source have all that counts in it, after indentations of white space. -/
theorem flatMap_substance_statementsFrom {n : Nat} {stack : List OpenBracket}
    {current : Option Statement} {ls : List Text} {ss : List Statement}
    (h : statementsFrom n stack current ls = .ok ss) (hc : stack = [] → current = none)
    (hi : ∀ s ∈ current, ∀ c ∈ s.indent, isBlank c) :
    (ss.flatMap fun s => substance s.text) =
        substance (Statement.lead current) ++ ls.flatMap substance ∧
      ∀ s ∈ ss, ∀ c ∈ s.indent, isBlank c := by
  induction ls generalizing n stack current ss with
  | nil =>
    obtain ⟨hs, rfl⟩ := Statement.eq_nil_of_statementsFrom_nil h
    rw [hc hs]
    exact ⟨rfl, by simp⟩
  | cons l ls ih =>
    have hg : substance (Statement.grow current l).text =
        substance (Statement.lead current) ++ substance l := by
      rw [Statement.text_grow, substance_append, substance_trim]
    have hgi : ∀ c ∈ (Statement.grow current l).indent, isBlank c := by
      cases current with
      | none => exact fun c hc => List.mem_takeWhile_imp hc
      | some s => exact hi s rfl
    rw [statementsFrom_cons] at h
    obtain ⟨s₁, -, h⟩ := Except.bind_eq_ok_iff.1 h
    rw [List.flatMap_cons, ← List.append_assoc, ← hg]
    split_ifs at h with he
    · obtain ⟨more, hmore, h⟩ := Except.bind_eq_ok_iff.1 h
      obtain rfl := Except.ok.inj h
      obtain ⟨hs, hb⟩ := ih hmore (fun _ => rfl) (by simp)
      refine ⟨?_, List.forall_mem_cons.2 ⟨hgi, hb⟩⟩
      rw [List.flatMap_cons, hs]
      rfl
    · obtain ⟨hs, hb⟩ := ih h (fun hn => absurd hn (by simpa using he)) (by rintro - ⟨⟩; exact hgi)
      refine ⟨?_, hb⟩
      rw [hs, Statement.lead, substance_append, substance_space, List.append_nil]

/-- The lines that a statement adds, apart from a blank one. -/
def written (options : FormatOptions) (s : Statement) : List Text :=
  if s.text.isEmpty then [] else render options s

theorem flatMap_substance_foldl (ls : List Text) (ss : List Statement) :
    (ss.foldl (addStatement options) ls).reverse.flatMap substance =
      ls.reverse.flatMap substance ++
        ss.flatMap fun s => (written options s).flatMap substance := by
  induction ss generalizing ls with
  | nil => exact (List.append_nil _).symm
  | cons s ss ih =>
    rw [List.foldl_cons, ih, List.flatMap_cons, ← List.append_assoc]
    congr 1
    rw [addStatement, written]
    split_ifs
    · exact (List.append_nil _).symm
    · rw [List.reverse_cons, List.flatMap_append]
      rfl
    · rw [List.reverse_append, List.reverse_reverse, List.flatMap_append]

theorem substance_layout (ss : List Statement) :
    substance ((layout options ss).flatMap (· ++ ['\n'])) =
      ss.flatMap fun s => (written options s).flatMap substance := by
  have hl : ∀ ls : List Text, substance (ls.flatMap (· ++ ['\n'])) = ls.flatMap substance := by
    intro ls
    induction ls with
    | nil => rfl
    | cons l ls ih =>
      rw [List.flatMap_cons, List.flatMap_cons, substance_append, substance_append, substance_feed,
        List.append_nil, ih]
  have hd : ∀ ls : List Text,
      (ls.dropWhile List.isEmpty).reverse.flatMap substance = ls.reverse.flatMap substance := by
    intro ls
    have ht : (ls.takeWhile List.isEmpty).reverse.flatMap substance = [] := by
      rw [List.flatMap_eq_nil_iff]
      intro l hm
      rw [List.isEmpty_iff.1 (List.mem_takeWhile_imp (List.mem_reverse.1 hm))]
      rfl
    conv_rhs => rw [← List.takeWhile_append_dropWhile (p := List.isEmpty) (l := ls),
      List.reverse_append, List.flatMap_append, ht, List.append_nil]
  rw [hl, layout, hd, flatMap_substance_foldl]
  rfl

/-- Texts of which each is shorter or the same make up the same text only if all are the same. -/
theorem flatMap_eq_iff {α : Type} {P : α → Prop} {f g : α → Text} {xs : List α}
    (h : ∀ x ∈ xs, (P x ∧ f x = g x) ∨ (¬ P x ∧ (f x).length < (g x).length)) :
    xs.flatMap f = xs.flatMap g ↔ ∀ x ∈ xs, P x := by
  have hle : ∀ ys : List α, (∀ y ∈ ys, (f y).length ≤ (g y).length) →
      (ys.flatMap f).length ≤ (ys.flatMap g).length := by
    intro ys hy
    induction ys with
    | nil => exact Nat.le_refl 0
    | cons y ys ih =>
      obtain ⟨hy, hys⟩ := List.forall_mem_cons.1 hy
      rw [List.flatMap_cons, List.flatMap_cons, List.length_append, List.length_append]
      exact Nat.add_le_add hy (ih hys)
  induction xs with
  | nil => simp
  | cons x xs ih =>
    obtain ⟨hx, hxs⟩ := List.forall_mem_cons.1 h
    rw [List.flatMap_cons, List.flatMap_cons, List.forall_mem_cons]
    rcases hx with ⟨hp, he⟩ | ⟨hp, hlt⟩
    · rw [he, List.append_cancel_left_eq, and_iff_right hp]
      exact ih hxs
    · refine iff_of_false (fun he => ?_) fun ha => hp ha.1
      have hl := congrArg List.length he
      have hr := hle xs fun y hy => (hxs y hy).elim (fun h => h.2 ▸ Nat.le_refl _) fun h => h.2.le
      rw [List.length_append, List.length_append] at hl
      omega

end Statements

/-- Tidying keeps all that counts in a source exactly if all its statements are whole. -/
theorem format_conserves_iff {source t : Text} {options : FormatOptions}
    (h : format source options = .ok t) :
    ∃ ss, statements source = .ok ss ∧
      (substance t = substance source ↔ ∀ s ∈ ss, Whole options s) := by
  rw [format] at h
  obtain ⟨ss, hs, rfl⟩ := Except.map_eq_ok_iff.1 h
  obtain ⟨hsub, hi⟩ := flatMap_substance_statementsFrom hs (fun _ => rfl) (by simp)
  refine ⟨ss, hs, ?_⟩
  rw [substance_layout, ← flatMap_substance_lines source]
  rw [Statement.lead, substance_nil, List.nil_append] at hsub
  rw [← hsub]
  refine flatMap_eq_iff fun s hm => ?_
  rw [written]
  split_ifs with ht
  · -- Nothing can be lost where there is nothing.
    have hz : substance s.text = [] := by rw [List.isEmpty_iff.1 ht, substance_nil]
    rcases substance_render options (hi s hm) with ⟨hw, -⟩ | ⟨-, hlt⟩
    · exact .inl ⟨hw, hz.symm⟩
    · rw [hz] at hlt
      exact absurd hlt (Nat.not_lt_zero _)
  · exact substance_render options (hi s hm)

/-- A call of which one argument holds brackets and a comma in a string. -/
def quotedCall : Text := "f(a, g('),('), b)\n".toList

theorem format_conserves_quotedCall :
    format quotedCall { lineLength := 5 } =
        .ok "f(\n    a,\n    g(\"),(\"),\n    b,\n)\n".toList ∧
      substance "f(\n    a,\n    g(\"),(\"),\n    b,\n)\n".toList = substance quotedCall := by
  have h : format quotedCall { lineLength := 5 } =
      .ok "f(\n    a,\n    g(\"),(\"),\n    b,\n)\n".toList := by
    decide +kernel
  have hs : statements quotedCall = .ok [⟨[], "f(a, g('),('), b)".toList⟩] := by decide +kernel
  obtain ⟨ss, hss, hiff⟩ := format_conserves_iff h
  obtain rfl := Except.ok.inj (hs.symm.trans hss)
  refine ⟨h, hiff.2 ?_⟩
  rw [List.forall_mem_singleton]
  have hr : "a, g(\"),(\"), b)".toList.getLast? = some ')' := by decide +kernel
  obtain ⟨body, hb, he⟩ := (closesLast_iff hr).1 (by decide +kernel)
  refine .inr ⟨['f'], body, ?_, by decide, he⟩
  rw [← hb]
  decide +kernel

/-- A call with an escaped quote in its second argument. -/
def escapedQuote : Text := "f(a, '\\'', b)\n".toList

/-- The call is broken up after its first argument, because the string seems to go on to the end. -/
theorem format_loses_escapedQuote :
    format escapedQuote { lineLength := 5 } = .ok "f(\n    a,\n)\n".toList ∧
      substance "f(\n    a,\n)\n".toList = "f(a)".toList ∧
      substance escapedQuote = "f(a\"\\\"\"b)".toList := by
  decide +kernel

end FencedCode.Tidy
