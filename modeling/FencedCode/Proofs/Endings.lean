import FencedCode.Proofs.Dressing

/-! Documents whose lines end with a carriage return and a line feed. A run treats them as it treats
the document with bare line feeds. -/
namespace FencedCode

variable {σ : Type}

namespace Text

/-- The text with a carriage return put before every line feed. -/
def crlf (t : Text) : Text := t.flatMap fun c => if c = '\n' then ['\r', '\n'] else [c]

theorem crlf_cons_lf (t : Text) : crlf ('\n' :: t) = '\r' :: '\n' :: crlf t := rfl

theorem crlf_cons {c : Char} (h : c ≠ '\n') (t : Text) : crlf (c :: t) = c :: crlf t := by
  rw [crlf, List.flatMap_cons, if_neg h]
  rfl

theorem crlf_append (t u : Text) : crlf (t ++ u) = crlf t ++ crlf u := List.flatMap_append

theorem crlf_of_unbroken {t : Text} (h : '\n' ∉ t) : crlf t = t := by
  induction t with
  | nil => rfl
  | cons c t ih =>
    obtain ⟨hc, ht⟩ := not_or.1 (mt List.mem_cons.2 h)
    rw [crlf_cons (Ne.symm hc), ih ht]

theorem crlf_ne_cons_lf (t u : Text) : crlf t ≠ '\n' :: u := by
  cases t with
  | nil => simp [crlf]
  | cons c t =>
    by_cases hc : c = '\n'
    · simp [hc, crlf_cons_lf]
    · simp [crlf_cons hc, hc]

/-- No two texts become the same, since what is put in always has a line feed after it. -/
theorem crlf_injective : Function.Injective crlf := by
  intro t u h
  induction t generalizing u with
  | nil =>
    cases u with
    | nil => rfl
    | cons d u => by_cases hd : d = '\n' <;> simp [crlf, hd] at h
  | cons c t ih =>
    cases u with
    | nil => by_cases hc : c = '\n' <;> simp [crlf, hc] at h
    | cons d u =>
      by_cases hc : c = '\n' <;> by_cases hd : d = '\n'
      · rw [hc, hd, crlf_cons_lf, crlf_cons_lf, List.cons.injEq, List.cons.injEq] at h
        rw [hc, hd, ih h.2.2]
      · rw [hc, crlf_cons_lf, crlf_cons hd, List.cons.injEq] at h
        exact absurd h.2.symm (crlf_ne_cons_lf u _)
      · rw [hd, crlf_cons_lf, crlf_cons hc, List.cons.injEq] at h
        exact absurd h.2 (crlf_ne_cons_lf t _)
      · rw [crlf_cons hc, crlf_cons hd, List.cons.injEq] at h
        rw [h.1, ih h.2]

end Text

/-- The dress in which every ending has a carriage return. -/
def Dress.carriage : Dress where
  pad := []
  ending
    | .missing => .missing
    | _ => .crlf
  padding := by simp
  ended e := by cases e <;> simp
  bare e := by cases e <;> simp

theorem Dress.carriage_line {l : Line} (hu : '\n' ∉ l.content) (he : l.ending ≠ .crlf) :
    l.text.crlf = (carriage.line l).text := by
  obtain ⟨c, e⟩ := l
  have hc : carriage.content c = c := by
    rw [content]
    split
    · next h => exact h.symm
    · rfl
  rw [Line.text, Line.text, Text.crlf_append, Text.crlf_of_unbroken hu, line, hc]
  cases e with
  | missing => rfl
  | lf => rfl
  | crlf => exact absurd rfl he

theorem crlf_joinLines {ls : List Line}
    (h : ∀ l ∈ ls, '\n' ∉ l.content ∧ l.ending ≠ .crlf) :
    (joinLines ls).crlf = joinLines (ls.map Dress.carriage.line) := by
  induction ls with
  | nil => rfl
  | cons l ls ih =>
    obtain ⟨⟨hu, he⟩, hs⟩ := List.forall_mem_cons.1 h
    rw [joinLines_cons, Text.crlf_append, Dress.carriage_line hu he, ih hs, List.map_cons,
      joinLines_cons]

/-- Where no carriage return stands before a line feed, no line has both for its ending. -/
theorem Text.unbroken_of_mem_splitLines {t : Text} (h : ¬ ['\r', '\n'] <:+: t) :
    ∀ l ∈ t.splitLines, '\n' ∉ l.content ∧ l.ending ≠ .crlf := by
  intro l hl
  refine ⟨(lined_splitLines t).unbroken l hl, fun he => ?_⟩
  obtain ⟨before, after, hs⟩ := List.append_of_mem hl
  refine h ⟨joinLines before ++ l.content, joinLines after, ?_⟩
  conv_rhs => rw [← joinLines_splitLines t, hs, joinLines_append, joinLines_cons]
  simp [Line.text, he, Ending.text]

/-- A run takes the endings of its lines from the document. -/
theorem Layout.Proper.ending_rewritten_ne_crlf {ps : Layout} (hp : ps.Proper) (rule : HeaderRule)
    (f : Formatter σ) (options : RunOptions) {text : Text} (s : σ)
    (hl : ps.lines = text.splitLines) (ht : ¬ ['\r', '\n'] <:+: text) :
    ∀ l ∈ ps.rewritten rule f options text s, '\n' ∉ l.content ∧ l.ending ≠ .crlf := by
  have hlines := Text.unbroken_of_mem_splitLines ht
  rw [hp.forall_mem_rewritten_iff hl hlines]
  · intro v hv _ _ c hc l hm _
    have hb := Body.line_mem_of_classify hc hm
    have hw := (Text.wellFormed_of_mem_blocks v.1 (mem_blocks_of_mem_visits hv)).2
    exact ⟨BodyLine.unbroken_preserved (hw _ hb), (hlines _ (Block.mem_of_mem_body hb)).2⟩
  · intro b hb c hc t ht
    refine ⟨unbroken_draftLine (Text.wellFormed_of_mem_blocks b hb).1.indent _ ht, ?_⟩
    change newlineOf c.lines ≠ .crlf
    rw [newlineOf]
    split
    · next h =>
      obtain ⟨l, hl, he⟩ := Option.map_eq_some_iff.1 h
      have hm := Body.line_mem_of_classify hc (List.mem_of_mem_head? hl)
      exact absurd he (hlines _ (Block.mem_of_mem_body hm)).2
    · simp

/-- A run on a document with carriage returns before its line feeds gives the formatter the same
sources as the run on the document without them, reports the same errors, and makes of it the same
text, with carriage returns before its line feeds. -/
theorem formatWith_crlf (rule : HeaderRule) (f : Formatter σ) (options : RunOptions) (text : Text)
    (s : σ) (hv : options.format.validate = .ok ()) (ht : ¬ ['\r', '\n'] <:+: text) :
    ∃ r r' s', formatWith rule f options text s = (.ok r, s') ∧
      formatWith rule f options text.crlf s = (.ok r', s') ∧ r.Parallel r' ∧
      r'.text = r.text.crlf ∧ r'.modified = r.modified := by
  have htext : Dress.carriage.text text = text.crlf := by
    rw [Dress.text, ← crlf_joinLines (Text.unbroken_of_mem_splitLines ht),
      Text.joinLines_splitLines]
  obtain ⟨r, r', s', hr, hr', hpar, hm, hm', hw⟩ := Dress.carriage.formatWith_text rule f text s hv
  rw [htext] at hr' hm'
  have hnew : r'.text = r.text.crlf := by
    obtain ⟨ps, hl, hp⟩ := Layout.exists_proper text.splitLines
    rw [(hw ps hl hp).1, (hw ps hl hp).2,
      crlf_joinLines (hp.ending_rewritten_ne_crlf rule f options s hl ht)]
  refine ⟨r, r', s', hr, hr', hpar, hnew, ?_⟩
  rw [hm', hm, hnew, Bool.eq_iff_iff, bne_iff_ne, bne_iff_ne, Text.crlf_injective.ne_iff]

/-- A document with carriage returns that are part of no ending: two blocks with three runs, an
artifact between two of them and one that freezes the rest of its block. -/
def strayReturns : Text :=
  "# a\n```python\nx=1\r\t\n\n!ls \r \ny=(\n```\n~~~ py\nz=1\n%%sh \r \nw=1\n~~~\n\rb".toList

/-- The second of the three runs of `strayReturns` is refused. -/
def answersForReturns : List (Except FormatError Text) :=
  [.ok "x = 1\r\n".toList, .error (.unparsable 1 3 "eof"), .ok "z = 1\n".toList]

/-- The first block is left as it is and reported, the second one is rewritten. -/
theorem formatWith_crlf_strayReturns :
    (({} : RunOptions).format.validate = .ok () ∧ ¬ ['\r', '\n'] <:+: strayReturns) ∧
      ∃ r r' s', formatWith Header.rule Formatter.prepared {} strayReturns answersForReturns =
          (.ok r, s') ∧
        formatWith Header.rule Formatter.prepared {} strayReturns.crlf answersForReturns =
          (.ok r', s') ∧
        r.Parallel r' ∧ r'.text = r.text.crlf ∧ r'.modified = r.modified ∧
        r.calls = ["x=1\r\t\n".toList, "y=(\n".toList, "z=1\n".toList] ∧
        r.errors.map (·.location.line) = [2] ∧ r.modified = true := by
  have ht : ¬ ['\r', '\n'] <:+: strayReturns := by decide +kernel
  obtain ⟨r, r', s', hr, hr', hpar, htext, hm⟩ :=
    formatWith_crlf Header.rule Formatter.prepared {} strayReturns answersForReturns rfl ht
  have hrun : ((formatWith Header.rule Formatter.prepared {} strayReturns answersForReturns).1.map
      fun r => (r.calls, r.errors.map (·.location.line), r.modified)) =
        .ok (["x=1\r\t\n".toList, "y=(\n".toList, "z=1\n".toList], [2], true) := by
    decide +kernel
  rw [hr] at hrun
  obtain ⟨hcalls, hrest⟩ := Prod.mk.inj (Except.ok.inj hrun)
  obtain ⟨herrors, hmodified⟩ := Prod.mk.inj hrest
  exact ⟨⟨rfl, ht⟩, r, r', s', hr, hr', hpar, htext, hm, hcalls, herrors, hmodified⟩

end FencedCode
