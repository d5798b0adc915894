import FencedCode.Proofs.Brackets

/-! Settled code. Code whose space and quotes are settled has the brackets that it had before, and
settling it once more changes nothing. -/
namespace FencedCode.Tidy

section Quotes

variable {q : Char} {t w : Text}

/-- Without quotes and backslashes a text may stand in any string. -/
theorem inside_of_forall (h : ∀ c ∈ t, c ≠ '\\' ∧ c ≠ q) : Inside q t := by
  induction t with
  | nil => exact .nil
  | cons c t ih =>
    obtain ⟨⟨hs, hd⟩, h⟩ := List.forall_mem_cons.1 h
    exact .plain hs hd (ih h)

theorem requote_double (t : Text) : requote ('"' :: t) = '"' :: t := rfl

theorem requote_single (t : Text) :
    requote ('\'' :: (t ++ ['\''])) =
      if '"' ∈ t ∨ '\\' ∈ t then '\'' :: (t ++ ['\'']) else '"' :: (t ++ ['"']) := by
  simp [requote]

/-- A literal stays a literal, and its quotes are changed once at most. -/
theorem isLiteral_requote (h : IsLiteral w) :
    IsLiteral (requote w) ∧ requote (requote w) = requote w := by
  obtain ⟨hq, hi⟩ := h
  rename_i quote t
  rcases isQuote_iff.1 hq with rfl | rfl
  · rw [requote_single]
    split_ifs with hm
    · refine ⟨.mk hq hi, ?_⟩
      rw [requote_single, if_pos hm]
    · refine ⟨.mk rfl (inside_of_forall fun c hc => ⟨?_, ?_⟩), requote_double _⟩
      · rintro rfl
        exact hm (.inr hc)
      · rintro rfl
        exact hm (.inl hc)
  · rw [requote_double]
    exact ⟨.mk hq hi, requote_double _⟩

/-- A literal as it is written, in double quotes where these are preferred. -/
def quoted (normalize : Bool) (w : Text) : Text := if normalize then requote w else w

theorem isLiteral_quoted (normalize : Bool) (h : IsLiteral w) :
    IsLiteral (quoted normalize w) ∧
      quoted normalize (quoted normalize w) = quoted normalize w := by
  cases normalize with
  | true => exact isLiteral_requote h
  | false => exact ⟨h, rfl⟩

theorem mem_of_mem_quoted {normalize : Bool} {c : Char} (hw : IsLiteral w)
    (h : c ∈ quoted normalize w) : c ∈ w ∨ c = '"' := by
  cases normalize with
  | false => exact .inl h
  | true =>
    obtain ⟨hq, -⟩ := hw
    rename_i quote t
    change c ∈ requote _ at h
    rcases isQuote_iff.1 hq with rfl | rfl
    · rw [requote_single] at h
      split_ifs at h with hm
      · exact .inl h
      · simp only [List.mem_cons, List.mem_append, List.not_mem_nil, or_false] at h ⊢
        tauto
    · exact .inl h

end Quotes

section Steps

variable {normalize due : Bool} {out r : Text} {c : Char}

theorem settleFrom_closing (hc : isClosing c) :
    settleFrom normalize out due .code (c :: r) =
      settleFrom normalize (c :: out) false .code r := by
  have hq : isQuote c = false :=
    isQuote_of_isBracket (by rw [isBracket, hc, Bool.or_true])
  have hm : c ≠ ',' := by
    rintro rfl
    contradiction
  rw [settleFrom, hq, if_neg Bool.false_ne_true, if_neg hm, if_pos hc]

theorem settleFrom_blank (hb : isBlank c) :
    settleFrom normalize out due .code (c :: r) = settleFrom normalize out true .code r := by
  obtain ⟨-, hm, hq, hc⟩ := plain_of_isBlank hb
  rw [isBracket, Bool.or_eq_false_iff] at hc
  rw [settleFrom, hq, if_neg Bool.false_ne_true, if_neg hm, hc.2, if_neg Bool.false_ne_true,
    if_pos hb]

theorem settleFrom_of_isBlank (hb : ∀ c ∈ r, isBlank c) :
    settleFrom normalize out due .code r = out.reverse := by
  induction r generalizing due with
  | nil => rfl
  | cons c r ih =>
    obtain ⟨hc, hr⟩ := List.forall_mem_cons.1 hb
    rw [settleFrom_blank hc, ih hr]

/-- The characters of words, among them opening brackets. -/
structure IsInk (c : Char) : Prop where
  quote : isQuote c = false
  comma : c ≠ ','
  closing : isClosing c = false
  blank : isBlank c = false

theorem IsInk.settleFrom_cons (h : IsInk c) :
    settleFrom normalize out due .code (c :: r) =
      settleFrom normalize (c :: addSpace out due) false .code r := by
  rw [settleFrom, h.quote, if_neg Bool.false_ne_true, if_neg h.comma, h.closing,
    if_neg Bool.false_ne_true, h.blank, if_neg Bool.false_ne_true]

theorem settleFrom_inside {q : Char} {i read : Text} (hq : q ≠ '\\') (h : Inside q i) :
    settleFrom normalize out due (.literal q false read) (i ++ r) =
      settleFrom normalize out due (.literal q false (i.reverse ++ read)) r := by
  induction h generalizing read with
  | nil => rfl
  | @escape c t _ ih =>
    rw [List.cons_append, List.cons_append, settleFrom, if_neg (by simp [Ne.symm hq]), settleFrom,
      if_neg (by simp)]
    simpa using ih
  | @plain c t hs hd _ ih =>
    have hn : (c == '\\') = false := by simpa using hs
    rw [List.cons_append, settleFrom, if_neg (by simp [hd]), hn]
    simpa using ih

theorem settleFrom_literal {w : Text} (h : IsLiteral w) :
    settleFrom normalize out due .code (w ++ r) =
      settleFrom normalize ((quoted normalize w).reverse ++ addSpace out due) false .code r := by
  obtain ⟨hq, hi⟩ := h
  rename_i quote t
  rw [List.cons_append, settleFrom, if_pos hq, List.append_assoc,
    settleFrom_inside (ne_slash_of_isQuote hq) hi, List.singleton_append, settleFrom,
    if_pos (by simp)]
  simp [settleFrom.addLiteral, quoted]

end Steps

section Runs

variable {normalize due : Bool} {out w p v : Text} {c : Char}

/-- What settled code may go on with after a space: a character of a word, or a settled literal.
`v` are the brackets in it. -/
structure Piece (normalize : Bool) (p v : Text) : Prop where
  read : ∀ out due r, settleFrom normalize out due .code (p ++ r) =
    settleFrom normalize (p.reverse ++ addSpace out due) false .code r
  code : ∀ k, ∃ ms, Code 0 k p ms ∧ word ms = v
  first : ∃ c r, p = c :: r ∧ isBlank c = false
  last : ∃ c r, p.reverse = c :: r ∧ isBlank c = false ∧ c ≠ ','
  unbroken : '\n' ∉ p

/-- Settled code, in reverse, with its brackets. When it is read again, it comes out as it is. -/
structure Drawn (normalize : Bool) (out w : Text) : Prop where
  stable : ∀ r, settleFrom normalize [] false .code (out.reverse ++ r) =
    settleFrom normalize out (out.head? == some ',') .code r
  code : ∃ ms, Code 0 0 out.reverse ms ∧ word ms = w
  first : ∀ c ∈ out.getLast?, isBlank c = false
  last : ∀ c ∈ out.head?, isBlank c = false
  unbroken : '\n' ∉ out

theorem piece_ink (normalize : Bool) (hi : IsInk c) (hs : c ≠ '#') (hn : c ≠ '\n') :
    Piece normalize [c] (if isBracket c then [c] else []) where
  read out due r := hi.settleFrom_cons
  code k := by
    cases hb : isBracket c with
    | true => exact ⟨[.bracket c 0 (k + 1)], .bracket hb .nil, rfl⟩
    | false => exact ⟨[], .plain hs hi.quote hb .nil, rfl⟩
  first := ⟨c, [], rfl, hi.blank⟩
  last := ⟨c, [], rfl, hi.blank, hi.comma⟩
  unbroken := by simpa using hn.symm

theorem piece_quoted (normalize : Bool) {l : Text} (h : IsLiteral l) (hn : '\n' ∉ l) :
    Piece normalize (quoted normalize l) [] := by
  obtain ⟨hl, he⟩ := isLiteral_quoted normalize h
  have solid : ∀ {c}, isQuote c → isBlank c = false ∧ c ≠ ',' := by
    intro c hc
    rcases isQuote_iff.1 hc with rfl | rfl <;> decide
  refine ⟨fun out due r => ?_, fun k => ⟨[], ?_, rfl⟩, ?_, ?_, fun hm => ?_⟩
  · rw [settleFrom_literal hl, he]
  · rw [← List.append_nil (quoted normalize l)]
    exact .literal hl .nil
  · obtain ⟨c, r, hc, hq⟩ := hl.exists_cons
    exact ⟨c, r, hc, (solid hq).1⟩
  · obtain ⟨c, r, hc, hq⟩ := hl.reverse_eq
    exact ⟨c, r, hc, solid hq⟩
  · rcases mem_of_mem_quoted h hm with hm | hm
    · exact hn hm
    · exact absurd hm (by decide)

/-- Settled code that ends in a piece does not end in a comma. -/
theorem Piece.head_ne_comma (hp : Piece normalize p v) (x : Text) :
    (p.reverse ++ x).head? ≠ some ',' := by
  obtain ⟨c, r, hc, -, hm⟩ := hp.last
  rw [hc]
  simpa using hm

theorem Piece.append_ne_nil (hp : Piece normalize p v) (x : Text) : p.reverse ++ x ≠ [] := by
  obtain ⟨c, r, hc, -⟩ := hp.last
  rw [hc]
  exact List.cons_ne_nil _ _

/-- Whether a space is due is seen in the code before it, unless white space was read there. -/
theorem addSpace_cases (hd : out.head? = some ',' → due = true) :
    (addSpace out due = out ∧ addSpace out (out.head? == some ',') = out) ∨
      (addSpace out due = ' ' :: out ∧ addSpace out true = ' ' :: out) := by
  cases out with
  | nil => exact .inl ⟨rfl, rfl⟩
  | cons c out =>
    cases ho : isOpening c with
    | true =>
      refine .inl ⟨?_, ?_⟩ <;> simp [addSpace, ho]
    | false =>
      cases due with
      | true => exact .inr ⟨by simp [addSpace, ho], by simp [addSpace, ho]⟩
      | false =>
        have hc : c ≠ ',' := by simpa using hd
        exact .inl ⟨by simp [addSpace], by simp [addSpace, hc]⟩

namespace Drawn

theorem nil : Drawn normalize [] [] where
  stable r := rfl
  code := ⟨[], .nil, rfl⟩
  first := by simp
  last := by simp
  unbroken := by simp

/-- Settled code may grow by whatever leads from its state to the state of the longer code. -/
theorem grow (h : Drawn normalize out w)
    (hr : ∀ r, settleFrom normalize out (out.head? == some ',') .code (p ++ r) =
      settleFrom normalize (p.reverse ++ out) ((p.reverse ++ out).head? == some ',') .code r)
    (hc : ∀ k, ∃ ms, Code 0 k p ms ∧ word ms = v) (hf : out = [] → ∀ c ∈ p.head?, isBlank c = false)
    (hl : ∃ c r, p.reverse = c :: r ∧ isBlank c = false) (hn : '\n' ∉ p) :
    Drawn normalize (p.reverse ++ out) (w ++ v) := by
  obtain ⟨c, r, hp, hb⟩ := hl
  have he : (p.reverse ++ out).reverse = out.reverse ++ p := by simp
  refine ⟨fun r => ?_, ?_, ?_, ?_, ?_⟩
  · rw [he, List.append_assoc, h.stable, hr]
  · obtain ⟨ms, hm, rfl⟩ := h.code
    obtain ⟨ms', hm', rfl⟩ := hc (0 + out.reverse.length)
    exact ⟨ms ++ ms', he ▸ hm.append hm', word_append ms ms'⟩
  · intro d hd
    rw [← List.head?_reverse, he] at hd
    cases out with
    | nil => exact hf rfl d hd
    | cons x out =>
      apply h.first d
      rw [← List.head?_reverse]
      have hx : (x :: out).reverse ≠ [] := by simp
      rwa [List.head?_append_of_ne_nil _ hx] at hd
  · intro d hd
    rw [hp, List.cons_append, List.head?_cons, Option.mem_some_iff] at hd
    rwa [← hd]
  · rw [List.mem_append, List.mem_reverse, not_or]
    exact ⟨hn, h.unbroken⟩

theorem comma (h : Drawn normalize out w) : Drawn normalize (',' :: out) w := by
  have hc : ∀ k, ∃ ms, Code 0 k [','] ms ∧ word ms = [] := fun k =>
    ⟨[], .plain (by decide) (by decide) (by decide) .nil, rfl⟩
  have hf : ∀ c ∈ [','].head?, isBlank c = false := by
    rintro c ⟨⟩
    decide
  have hg := h.grow (fun r => rfl) hc (fun _ => hf) ⟨',', [], rfl, by decide⟩ (by decide)
  rwa [List.append_nil] at hg

theorem closing (h : Drawn normalize out w) (hc : isClosing c) :
    Drawn normalize (c :: out) (w ++ [c]) := by
  have hb : isBracket c := by rw [isBracket, hc, Bool.or_true]
  have solid : isBlank c = false ∧ c ≠ ',' ∧ c ≠ '\n' := by
    rcases isClosing_iff.1 hc with rfl | rfl | rfl <;> decide
  refine h.grow (p := [c]) (fun r => ?_) (fun k => ?_) ?_ ⟨c, [], rfl, solid.1⟩ ?_
  · have hh : (([c].reverse ++ out).head? == some ',') = false := by simpa using solid.2.1
    rw [hh]
    exact settleFrom_closing hc
  · exact ⟨[.bracket c 0 (k + 1)], .bracket hb .nil, rfl⟩
  · rintro - d hd
    rw [List.head?_cons, Option.mem_some_iff] at hd
    exact hd ▸ solid.1
  · simpa using solid.2.2.symm

/-- The next piece comes after a space or directly, and it is read again where it stands. -/
theorem piece (h : Drawn normalize out w) (hp : Piece normalize p v)
    (hd : out.head? = some ',' → due = true) :
    Drawn normalize (p.reverse ++ addSpace out due) (w ++ v) := by
  obtain ⟨c, r, hc, hb, -⟩ := hp.last
  obtain ⟨d, u, hu, hf⟩ := hp.first
  have hh : ∀ x, ((p.reverse ++ x).head? == some ',') = false := fun x =>
    beq_eq_false_iff_ne.2 (hp.head_ne_comma x)
  rcases addSpace_cases hd with ⟨he, he'⟩ | ⟨he, he'⟩
  · rw [he]
    refine h.grow (fun r => ?_) hp.code ?_ ⟨c, r, hc, hb⟩ hp.unbroken
    · rw [hp.read, he', hh]
    · rintro - x hx
      rw [hu, List.head?_cons, Option.mem_some_iff] at hx
      exact hx ▸ hf
  · have hs : p.reverse ++ ' ' :: out = (' ' :: p).reverse ++ out := by simp
    have ho : out ≠ [] := by
      rintro rfl
      contradiction
    rw [he, hs]
    refine h.grow (fun r => ?_) (fun k => ?_) (fun hn => absurd hn ho) ?_ ?_
    · rw [← hs, hh, List.cons_append, settleFrom_blank (by decide), hp.read, he']
    · obtain ⟨ms, hm, hw⟩ := hp.code (k + 1)
      exact ⟨ms, .plain (by decide) (by decide) (by decide) hm, hw⟩
    · exact ⟨c, r ++ [' '], by rw [List.reverse_cons, hc, List.cons_append], hb⟩
    · rw [List.mem_cons, not_or]
      exact ⟨by decide, hp.unbroken⟩

end Drawn

theorem isInk_of_isOpening (h : isOpening c) : IsInk c where
  quote := isQuote_of_isBracket (isBracket_of_isOpening h)
  comma := by
    rintro rfl
    contradiction
  closing := by rw [isClosing, partner?_of_isOpening h, Option.isSome_none]
  blank := by
    by_contra hb
    rw [Bool.not_eq_false] at hb
    have hn := (plain_of_isBlank hb).2.2.2
    rw [isBracket_of_isOpening h] at hn
    contradiction

/-- Settling a part of code keeps what is settled already, with the brackets of both. -/
theorem Code.settleFrom {n k : Nat} {t : Text} {ms : List Mark} (h : Code n k t ms)
    (hn : '\n' ∉ t) (ho : Drawn normalize out w) (hd : out.head? = some ',' → due = true) :
    ∃ out', settleFrom normalize out due .code t = out'.reverse ∧
      Drawn normalize out' (w ++ word ms) ∧ (out' = [] → out = [] ∧ t.isAllBlank) := by
  -- After a piece no space is due, and something is there.
  have next : ∀ {p v : Text}, Piece normalize p v → ∀ x,
      p.reverse ++ x ≠ [] ∧ ((p.reverse ++ x).head? = some ',' → false = true) := fun hp x =>
    ⟨hp.append_ne_nil x, fun hc => absurd hc (hp.head_ne_comma x)⟩
  induction h generalizing out due w with
  | nil => exact ⟨out, rfl, by rwa [word_nil, List.append_nil], fun hn => ⟨hn, rfl⟩⟩
  | @literal k l t ms hl _ ih =>
    rw [List.mem_append, not_or] at hn
    have hp := piece_quoted normalize hl hn.1
    obtain ⟨hne, hd'⟩ := next hp (addSpace out due)
    obtain ⟨out', he, hD, hb⟩ := ih hn.2 (ho.piece hp hd) hd'
    rw [List.append_nil] at hD
    refine ⟨out', ?_, hD, fun h => absurd (hb h).1 hne⟩
    rw [settleFrom_literal hl, he]
  | @bracket k c t ms hb _ ih =>
    rw [List.mem_cons, not_or] at hn
    rcases isBracket_iff.1 hb with hop | ⟨o, hc⟩
    · have hi := isInk_of_isOpening hop
      have hp := piece_ink normalize hi (ne_sign_of_isBracket hb) (Ne.symm hn.1)
      obtain ⟨hne, hd'⟩ := next hp (addSpace out due)
      obtain ⟨out', he, hD, hb'⟩ := ih hn.2 (ho.piece hp hd) hd'
      rw [if_pos hb, List.append_assoc] at hD
      refine ⟨out', ?_, hD, fun h => absurd (hb' h).1 hne⟩
      rw [hi.settleFrom_cons]
      exact he
    · have hcl : isClosing c := by rw [isClosing, hc, Option.isSome_some]
      have hd' : (c :: out).head? = some ',' → false = true := by
        intro he
        cases he
        contradiction
      obtain ⟨out', he, hD, hb'⟩ := ih hn.2 (ho.closing hcl) hd'
      rw [List.append_assoc] at hD
      refine ⟨out', ?_, hD, fun h => absurd (hb' h).1 (by simp)⟩
      rw [settleFrom_closing hcl, he]
  | @plain k c t ms hs hq hb _ ih =>
    rw [List.mem_cons, not_or] at hn
    by_cases hm : c = ','
    · subst hm
      obtain ⟨out', he, hD, hb'⟩ := ih hn.2 ho.comma fun _ => Eq.refl true
      exact ⟨out', he, hD, fun h => absurd (hb' h).1 (by simp)⟩
    · cases hbl : isBlank c with
      | true =>
        obtain ⟨out', he, hD, hb'⟩ := ih hn.2 ho fun _ => Eq.refl true
        refine ⟨out', ?_, hD, fun h => ⟨(hb' h).1, ?_⟩⟩
        · rw [settleFrom_blank hbl, he]
        · rw [Text.isAllBlank, List.all_cons, hbl, Bool.true_and]
          exact (hb' h).2
      | false =>
        have hi : IsInk c := ⟨hq, hm, (Bool.or_eq_false_iff.1 hb).2, hbl⟩
        have hp := piece_ink normalize hi hs (Ne.symm hn.1)
        obtain ⟨hne, hd'⟩ := next hp (addSpace out due)
        obtain ⟨out', he, hD, hb'⟩ := ih hn.2 (ho.piece hp hd) hd'
        rw [hb, if_neg Bool.false_ne_true, List.append_nil] at hD
        refine ⟨out', ?_, hD, fun h => absurd (hb' h).1 hne⟩
        rw [hi.settleFrom_cons]
        exact he

end Runs

/-- Settled code: it is code with the same brackets, without white space at its ends, and settled
for good. -/
structure Settled (normalize : Bool) (t u w : Text) : Prop where
  again : ∀ b : Text, (∀ c ∈ b, isBlank c) → settle normalize (u ++ b) = u
  code : ∃ ms, Code 0 0 u ms ∧ word ms = w
  first : ∀ c ∈ u.head?, isBlank c = false
  last : ∀ c ∈ u.getLast?, isBlank c = false
  unbroken : '\n' ∉ u
  blank : u = [] → t.isAllBlank

theorem Code.settled {n k : Nat} {t : Text} {ms : List Mark} (h : Code n k t ms) (hn : '\n' ∉ t)
    (normalize : Bool) : Settled normalize t (settle normalize t) (word ms) := by
  have hd : ([] : Text).head? = some ',' → false = true := by simp
  obtain ⟨out, he, hD, hb⟩ := h.settleFrom hn (.nil : Drawn normalize [] []) hd
  rw [settle, he]
  have hs : ∀ b : Text, (∀ c ∈ b, isBlank c) →
      settle normalize (out.reverse ++ b) = out.reverse := by
    intro b hb
    rw [settle, hD.stable, settleFrom_of_isBlank hb]
  refine ⟨hs, hD.code, ?_, ?_, ?_, fun hu => (hb (List.reverse_eq_nil_iff.1 hu)).2⟩
  · rw [List.head?_reverse]
    exact hD.first
  · rw [List.getLast?_reverse]
    exact hD.last
  · rw [List.mem_reverse]
    exact hD.unbroken

end FencedCode.Tidy
