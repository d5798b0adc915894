import FencedCode.Proofs.Space
import FencedCode.Toml.Quoted
import FencedCode.Toml.Writer

/-! Strings as they are written. Whatever a text has in it, be it quotes, backslashes, breaks or
control characters, its written form is read back as that text, and what follows is left alone. -/
namespace FencedCode.Toml

section Characters

variable {c : Char}

theorem isPlainChar_of_not_isControl (h : isControl c = false) (hn : c ≠ '\n') : isPlainChar c := by
  by_cases ht : c = '\t'
  · subst ht
    rfl
  · have hb : ¬ c.toNat ≤ 0x1f ∧ c.toNat ≠ 0x7f := by simpa [isControl, ht, hn] using h
    simp only [isPlainChar, Bool.or_eq_true, Bool.and_eq_true, decide_eq_true_eq]
    omega

theorem ne_break_of_isPlainChar (h : isPlainChar c) : c ≠ '\n' ∧ c ≠ '\r' := by
  constructor
  · rintro rfl
    contradiction
  · rintro rfl
    contradiction

theorem toNat_lt_of_isControl (h : isControl c) : c.toNat < 0x80 := by
  simp only [isControl, Bool.or_eq_true, Bool.and_eq_true, decide_eq_true_eq, beq_iff_eq] at h
  omega

end Characters

/-- The first text stands for the second between quotes. On several lines up to two quotes may stand
together, and only double quotes have escape sequences between them. -/
inductive Spells (quote : Char) (lines : Bool) : Text → Text → Prop
  | nil : Spells quote lines [] []
  | plain {c : Char} {w t : Text} (hp : isPlainChar c) (hq : c ≠ quote)
      (hs : c = '\\' → quote ≠ '"') (h : Spells quote lines w t) :
      Spells quote lines (c :: w) (c :: t)
  | newline {w t : Text} (hl : lines) (h : Spells quote lines w t) :
      Spells quote lines ('\n' :: w) ('\n' :: t)
  | quote {w t : Text} (hl : lines) (hr : (w.takeWhile (· == quote)).length < 2)
      (h : Spells quote lines w t) : Spells quote lines (quote :: w) (quote :: t)
  | escape {c d : Char} {w t : Text} (hq : quote = '"') (he : escaped? c = some d)
      (h : Spells quote lines w t) : Spells quote lines ('\\' :: c :: w) (d :: t)
  | hex {c : Char} {w t : Text} (hq : quote = '"') (hc : isControl c)
      (h : Spells quote lines w t) :
      Spells quote lines ('\\' :: 'u' :: (hexDigits c.toNat ++ w)) (c :: t)

section Steps

variable {quote c d : Char} {lines : Bool} {done r : Text}

theorem quotedFrom_plain (hp : isPlainChar c) (hq : c ≠ quote) (hs : c = '\\' → quote ≠ '"') :
    quotedFrom quote lines done .plain (c :: r) = quotedFrom quote lines (c :: done) .plain r := by
  obtain ⟨hn, hr⟩ := ne_break_of_isPlainChar hp
  have hb : ¬ (c = '\\' ∧ quote = '"') := fun h => hs h.1 h.2
  simp [quotedFrom, hn, hr, hq, hb, hp]

theorem quotedFrom_newline :
    quotedFrom quote true done .plain ('\n' :: r) =
      quotedFrom quote true ('\n' :: done) .plain r := by
  simp [quotedFrom]

/-- On several lines a quote is read together with those that follow it. -/
theorem quotedFrom_run (hp : isPlainChar quote) {n : Nat}
    (hr : ((quote :: r).takeWhile (· == quote)).length = n) :
    quotedFrom quote true done .plain (quote :: r) =
      if n < 3 then quotedFrom quote true (quote :: done) .plain r
      else .ok (done.reverse ++ List.replicate (min n 5 - 3) quote,
        (quote :: r).drop (min n 5)) := by
  obtain ⟨hn, hc⟩ := ne_break_of_isPlainChar hp
  simp only [quotedFrom, hr]
  simp [hn, hc]

theorem quotedFrom_quote (hp : isPlainChar quote)
    (hr : (r.takeWhile (· == quote)).length < 2) :
    quotedFrom quote true done .plain (quote :: r) =
      quotedFrom quote true (quote :: done) .plain r := by
  have ht : ((quote :: r).takeWhile (· == quote)).length =
      (r.takeWhile (· == quote)).length + 1 := by simp
  rw [quotedFrom_run hp ht, if_pos (by omega)]

theorem quotedFrom_close :
    quotedFrom quote false done .plain (quote :: r) = .ok (done.reverse, r) := by
  simp [quotedFrom]

/-- Up to two quotes before the closing ones belong to the string. -/
theorem quotedFrom_closeLines (hp : isPlainChar quote) {n : Nat} (hn : n ≤ 2)
    (hr : r.head? ≠ some quote) :
    quotedFrom quote true done .plain (List.replicate (n + 3) quote ++ r) =
      .ok (done.reverse ++ List.replicate n quote, r) := by
  have hs : ∀ c ∈ r.head?, (c == quote) = false := by
    intro c hc
    rw [beq_eq_false_iff_ne]
    rintro rfl
    exact hr hc
  have ht : ((List.replicate (n + 3) quote ++ r).takeWhile (· == quote)).length = n + 3 := by
    rw [Text.takeWhile_append_of_stop (by simp) hs, List.length_replicate]
  have hd : (List.replicate (n + 3) quote ++ r).drop (n + 3) = r :=
    List.drop_left' List.length_replicate
  rw [List.replicate_succ, List.cons_append] at ht hd ⊢
  have hm : min (n + 3) 5 = n + 3 := by omega
  rw [quotedFrom_run hp ht, if_neg (by omega), hm, hd, Nat.add_sub_cancel]

theorem quotedFrom_escape (he : escaped? c = some d) :
    quotedFrom '"' lines done .plain ('\\' :: c :: r) =
      quotedFrom '"' lines (d :: done) .plain r := by
  simp [quotedFrom, he]

/-- Digits are read one by one up to the last. -/
theorem quotedFrom_hex {ds : Text} {n v : Nat} (hd : ds ≠ [])
    (hv : ds.foldlM (fun n c => (hexDigit? c).map (n * 16 + ·)) n = some v)
    (hc : scalarValue? v = some c) :
    quotedFrom quote lines done (.hex ds.length n) (ds ++ r) =
      quotedFrom quote lines (c :: done) .plain r := by
  induction ds generalizing n with
  | nil => contradiction
  | cons a ds ih =>
    obtain ⟨m, hm, hv⟩ := Option.bind_eq_some_iff.1 hv
    obtain ⟨d, ha, rfl⟩ := Option.map_eq_some_iff.1 hm
    cases ds with
    | nil =>
      cases hv
      simp [quotedFrom, ha, hc]
    | cons b ds =>
      rw [← ih (by simp) hv]
      simp [quotedFrom, ha]

theorem hexDigits_spec : ∀ n < 0x80, (hexDigits n).length = 4 ∧
    (hexDigits n).foldlM (fun n c => (hexDigit? c).map (n * 16 + ·)) 0 = some n := by
  decide

theorem quotedFrom_control (hc : isControl c) :
    quotedFrom '"' lines done .plain ('\\' :: 'u' :: (hexDigits c.toNat ++ r)) =
      quotedFrom '"' lines (c :: done) .plain r := by
  have hn := toNat_lt_of_isControl hc
  obtain ⟨hl, hv⟩ := hexDigits_spec c.toNat hn
  have hs : scalarValue? c.toNat = some c := by
    rw [scalarValue?, if_neg, Char.ofNat_toNat]
    simp only [Bool.or_eq_true, Bool.and_eq_true, decide_eq_true_eq]
    omega
  have hd : hexDigits c.toNat ≠ [] := List.ne_nil_of_length_pos (by omega)
  rw [← quotedFrom_hex hd hv hs, hl]
  simp [quotedFrom, escaped?]

end Steps

/-- The quotes at either end of a string. -/
def quotes (quote : Char) (lines : Bool) : Text := List.replicate (if lines then 3 else 1) quote

namespace Spells

variable {quote : Char} {lines : Bool} {w t rest : Text}

/-- Text in its spelling is read up to the closing quotes. -/
theorem quotedFrom (h : Spells quote lines w t) (hp : isPlainChar quote)
    (hr : rest.head? ≠ some quote) (done : Text) :
    quotedFrom quote lines done .plain (w ++ (quotes quote lines ++ rest)) =
      .ok (done.reverse ++ t, rest) := by
  induction h generalizing done with
  | nil =>
    cases lines with
    | false => exact quotedFrom_close.trans (by rw [List.append_nil]; rfl)
    | true => exact quotedFrom_closeLines hp (Nat.zero_le 2) hr
  | plain hc hq hs _ ih =>
    rw [List.cons_append, quotedFrom_plain hc hq hs, ih]
    simp
  | newline hl _ ih =>
    subst hl
    rw [List.cons_append, quotedFrom_newline, ih]
    simp
  | @quote w t hl hw _ ih =>
    subst hl
    by_cases ha : (w.takeWhile (· == quote)).length = w.length
    · -- Nothing but quotes is left, which are read together with the closing ones.
      obtain ⟨n, rfl⟩ : ∃ n, w = List.replicate n quote := by
        have he := (List.takeWhile_prefix (· == quote)).eq_of_length ha
        exact ⟨_, he.symm.trans (Text.takeWhile_eq_replicate quote w)⟩
      rw [ha, List.length_replicate] at hw
      have run : ∀ n, List.replicate n quote ++ (quotes quote true ++ rest) =
          List.replicate (n + 3) quote ++ rest := by
        intro n
        rw [← List.append_assoc, quotes, if_pos rfl, List.replicate_append_replicate]
      have hi := ih []
      rw [run, quotedFrom_closeLines hp (by omega) hr] at hi
      obtain rfl : List.replicate n quote = t := by simpa using hi
      rw [← List.replicate_succ, run, quotedFrom_closeLines hp (by omega) hr]
    · have ht : ((w ++ (quotes quote true ++ rest)).takeWhile (· == quote)).length < 2 := by
        rwa [List.takeWhile_append, if_neg ha]
      rw [List.cons_append, quotedFrom_quote hp ht, ih]
      simp
  | escape hq he _ ih =>
    subst hq
    rw [List.cons_append, List.cons_append, quotedFrom_escape he, ih]
    simp
  | hex hq hc _ ih =>
    subst hq
    rw [List.cons_append, List.cons_append, List.append_assoc, quotedFrom_control hc, ih]
    simp

/-- A spelling starts with no break unless the text does. -/
theorem head_ne_break (h : Spells quote lines w t) (hp : isPlainChar quote) (hn : '\n' ∉ t) :
    ∀ c ∈ w.head?, c ≠ '\n' ∧ c ≠ '\r' := by
  cases h with
  | nil => simp
  | plain hc => simpa using ne_break_of_isPlainChar hc
  | newline => simp at hn
  | quote => simpa using ne_break_of_isPlainChar hp
  | escape => simp
  | hex => simp

theorem head_ne_quote (h : Spells quote false w t) : w.head? ≠ some quote := by
  cases h with
  | nil => simp
  | plain _ hq => simpa using hq
  | newline hl => contradiction
  | quote hl => contradiction
  | escape hq => simp [hq]
  | hex hq => simp [hq]

end Spells

section Reading

variable {quote : Char} {lines : Bool} {w t rest : Text}

theorem dropFirstBreak_of_head (h : ∀ c ∈ t.head?, c ≠ '\n' ∧ c ≠ '\r') : dropFirstBreak t = t := by
  cases t with
  | nil => rfl
  | cons c t =>
    obtain ⟨hn, hr⟩ := h c rfl
    simp [dropFirstBreak, hn, hr]

theorem string_line (hq : quote = '"' ∨ quote = '\'') (h : t.take 2 ≠ [quote, quote]) :
    string (quote :: t) = lineString quote t := by
  rcases hq with rfl | rfl
  all_goals
    unfold string
    split <;> simp_all

theorem string_lines (hq : quote = '"' ∨ quote = '\'') (t : Text) :
    string (quote :: quote :: quote :: t) =
      quotedFrom quote true [] .plain (dropFirstBreak t) := by
  rcases hq with rfl | rfl <;> rfl

theorem isPlainChar_quote (hq : quote = '"' ∨ quote = '\'') : isPlainChar quote := by
  rcases hq with rfl | rfl <;> rfl

/-- The break after the opening quotes, which is none of the text. -/
def firstBreak (lines : Bool) (t : Text) : Text := if lines && t.elem '\n' then ['\n'] else []

/-- A string is read from its opening quotes on. -/
theorem Spells.string (h : Spells quote lines w t) (hq : quote = '"' ∨ quote = '\'')
    (hr : rest.head? ≠ some quote) :
    string (quotes quote lines ++ (firstBreak lines t ++ (w ++ (quotes quote lines ++ rest)))) =
      .ok (t, rest) := by
  have hp := isPlainChar_quote hq
  have read := h.quotedFrom hp hr []
  cases lines with
  | false =>
    have ht : (w ++ (quotes quote false ++ rest)).take 2 ≠ [quote, quote] := by
      have hw := h.head_ne_quote
      cases w with
      | nil =>
        cases rest with
        | nil => simp [quotes]
        | cons c r => simpa [quotes] using hr
      | cons c w =>
        intro he
        exact hw (congrArg List.head? he)
    exact (string_line hq ht).trans read
  | true =>
    have hd : dropFirstBreak (firstBreak true t ++ (w ++ (quotes quote true ++ rest))) =
        w ++ (quotes quote true ++ rest) := by
      unfold firstBreak
      split_ifs with hn
      · rfl
      · rw [Bool.true_and, List.elem_eq_mem, decide_eq_true_eq] at hn
        apply dropFirstBreak_of_head
        intro c hc
        cases w with
        | nil =>
          obtain rfl : quote = c := by simpa [quotes] using hc
          exact ne_break_of_isPlainChar hp
        | cons d w => exact h.head_ne_break hp hn c hc
    rw [← hd] at read
    exact (string_lines hq _).trans read

end Reading

section Writing

variable {lines : Bool}

theorem spells_escape {c : Char} {w t : Text} (hq : c ≠ '"') (h : Spells '"' lines w t) :
    Spells '"' lines (escape lines c ++ w) (c :: t) := by
  unfold escape
  split_ifs with hb ht hn hl hf hr hs hc
  · exact .escape rfl (by rw [hb]; rfl) h
  · exact .escape rfl (by rw [ht]; rfl) h
  · exact hn ▸ .newline hl h
  · exact .escape rfl (by rw [hn]; rfl) h
  · exact .escape rfl (by rw [hf]; rfl) h
  · exact .escape rfl (by rw [hr]; rfl) h
  · exact .escape rfl (by rw [hs]; rfl) h
  · exact .hex rfl hc h
  · exact .plain (isPlainChar_of_not_isControl (by simpa using hc) hn) hq (fun h => absurd h hs) h

theorem head_escape {c : Char} (hq : c ≠ '"') (w : Text) :
    (escape lines c ++ w).takeWhile (· == '"') = [] := by
  unfold escape
  split_ifs <;> simp_all

/-- At most two quotes that are not escaped stand together. -/
theorem run_escapeAll (n : Nat) (t : Text) :
    ((escapeAll lines n t).takeWhile (· == '"')).length ≤ 2 - n := by
  induction t generalizing n with
  | nil => exact Nat.zero_le _
  | cons c t ih =>
    unfold escapeAll
    split_ifs with hq hl
    · have hi := ih (n + 1)
      have hn : n < 2 := by simpa using (Bool.and_eq_true_iff.1 hl).2
      rw [hq, List.takeWhile_cons_of_pos rfl, List.length_cons]
      omega
    · simp
    · rw [head_escape hq]
      exact Nat.zero_le _

theorem spells_escapeAll (lines : Bool) (n : Nat) (t : Text) :
    Spells '"' lines (escapeAll lines n t) t := by
  induction t generalizing n with
  | nil => exact .nil
  | cons c t ih =>
    unfold escapeAll
    split_ifs with hq hl
    · have hr : ((escapeAll lines (n + 1) t).takeWhile (· == '"')).length ≤ 2 - (n + 1) :=
        run_escapeAll (n + 1) t
      rw [hq]
      exact .quote (Bool.and_eq_true_iff.1 hl).1 (by omega) (ih (n + 1))
    · exact .escape rfl (by rw [hq]; rfl) (ih 0)
    · exact spells_escape hq (ih 0)

theorem run_le_longestRun (c : Char) (n : Nat) (t : Text) :
    (t.takeWhile (· == c)).length + n ≤ longestRun c n t := by
  induction t generalizing n with
  | nil => simp [longestRun]
  | cons d t ih =>
    unfold longestRun
    split_ifs with hd
    · have hi := ih (n + 1)
      rw [hd] at hi ⊢
      rw [List.takeWhile_cons_of_pos (by simp), List.length_cons]
      omega
    · rw [List.takeWhile_cons_of_neg (by simpa using Ne.symm hd), List.length_nil]
      omega

theorem longestRun_mono (c : Char) {m n : Nat} (h : m ≤ n) (t : Text) :
    longestRun c m t ≤ longestRun c n t := by
  induction t generalizing m n with
  | nil => exact h
  | cons d t ih =>
    unfold longestRun
    split_ifs
    · exact ih (by omega)
    · omega

/-- Text without control characters is its own spelling if it has no long run of quotes. Quotes and
breaks need a string on several lines. -/
theorem spells_self {quote : Char} (hq : quote ≠ '"') {t : Text} (hc : ∀ c ∈ t, isControl c = false)
    (hr : longestRun quote 0 t ≤ 2) (hl : 0 < longestRun quote 0 t → lines)
    (hn : '\n' ∈ t → lines) : Spells quote lines t t := by
  induction t with
  | nil => exact .nil
  | cons c t ih =>
    obtain ⟨hcc, hct⟩ := List.forall_mem_cons.1 hc
    have hnt : '\n' ∈ t → lines := fun h => hn (List.mem_cons_of_mem c h)
    rw [longestRun] at hr hl
    split_ifs at hr hl with he
    · subst he
      rw [Nat.zero_add] at hr hl
      have hrun := run_le_longestRun quote 1 t
      have hm := longestRun_mono quote (Nat.zero_le 1) t
      have hs := ih hct (by omega) (fun _ => hl (by omega)) hnt
      exact .quote (hl (by omega)) (by omega) hs
    · rw [Nat.zero_max] at hr hl
      have hs := ih hct hr hl hnt
      by_cases hb : c = '\n'
      · subst hb
        exact .newline (hn List.mem_cons_self) hs
      · exact .plain (isPlainChar_of_not_isControl hcc hb) (Ne.symm he) (fun _ => hq) hs

theorem of_stringForm_literal {t : Text} (h : stringForm t = .literal) :
    (∀ c ∈ t, isControl c = false) ∧ longestRun '\'' 0 t = 0 ∧ '\n' ∉ t := by
  simp only [stringForm] at h
  split_ifs at h with _ hl
  simpa [and_assoc] using hl

theorem of_stringForm_literalLines {t : Text} (h : stringForm t = .literalLines) :
    (∀ c ∈ t, isControl c = false) ∧ longestRun '\'' 0 t ≤ 2 := by
  simp only [stringForm] at h
  split_ifs at h with _ _ _ hl
  simpa using hl

/-- Every text is written between quotes in a spelling of it. -/
theorem exists_spells (t : Text) : ∃ quote lines w, (quote = '"' ∨ quote = '\'') ∧
    Spells quote lines w t ∧
    writeString t = quotes quote lines ++ (firstBreak lines t ++ (w ++ quotes quote lines)) := by
  unfold writeString
  cases hf : stringForm t with
  | basic => exact ⟨'"', false, _, .inl rfl, spells_escapeAll false 0 t, rfl⟩
  | literal =>
    obtain ⟨hc, hr, hn⟩ := of_stringForm_literal hf
    have hs : Spells '\'' false t t :=
      spells_self (by decide) hc (by omega) (fun h => by omega) (fun h => absurd h hn)
    exact ⟨'\'', false, t, .inr rfl, hs, rfl⟩
  | basicLines =>
    refine ⟨'"', true, _, .inl rfl, spells_escapeAll true 0 t, ?_⟩
    simp [quotes, firstBreak]
  | literalLines =>
    obtain ⟨hc, hr⟩ := of_stringForm_literalLines hf
    have hs : Spells '\'' true t t := spells_self (by decide) hc hr (fun _ => rfl) (fun _ => rfl)
    refine ⟨'\'', true, t, .inr rfl, hs, ?_⟩
    simp [quotes, firstBreak]

theorem exists_quote_writeString (t : Text) :
    ∃ quote w, (quote = '"' ∨ quote = '\'') ∧ writeString t = quote :: w := by
  obtain ⟨quote, lines, w, hq, -, hw⟩ := exists_spells t
  cases lines with
  | false => exact ⟨quote, _, hq, hw⟩
  | true => exact ⟨quote, _, hq, hw⟩

/-- A string is read back as it was written, unless a quote follows it. -/
theorem string_writeString (t : Text) {rest : Text} (hd : rest.head? ≠ some '"')
    (hs : rest.head? ≠ some '\'') : string (writeString t ++ rest) = .ok (t, rest) := by
  obtain ⟨quote, lines, w, hq, h, hw⟩ := exists_spells t
  have hr : rest.head? ≠ some quote := by
    rcases hq with rfl | rfl
    · exact hd
    · exact hs
  have read := h.string hq hr
  rw [hw]
  simpa using read

end Writing

end FencedCode.Toml
