import FencedCode.Format.Report
import FencedCode.Proofs.Space
import Mathlib.Algebra.Group.Nat.Defs

/-! Reports on code that cannot be parsed. A report is found where it stands in the output of the
formatter and read as it was written, and there is none where its opening words do not occur. -/
namespace FencedCode

section Digits

variable {c : Char} (h : c.isDigit)

include h

theorem toNat_of_isDigit : 0x30 ≤ c.toNat ∧ c.toNat ≤ 0x39 := by
  simpa [Char.isDigit, UInt32.le_iff_toNat_le] using h

theorem isDecimalDigit_of_isDigit : isDecimalDigit c := by
  simp [isDecimalDigit, inRanges, decimalDigitRanges, toNat_of_isDigit h]

theorem hexDigit?_of_isDigit : hexDigit? c = some (c.toNat - '0'.toNat) := if_pos h

end Digits

namespace Text

theorem digits?_of_isDigit {t : Text} (hn : t ≠ []) (h : ∀ c ∈ t, c.isDigit) :
    digits? 10 t = some (Nat.ofDigitChars 10 t 0) := by
  rw [digits?, if_neg (by simpa using hn)]
  clear hn
  generalize 0 = n
  induction t generalizing n with
  | nil => rfl
  | cons c t ih =>
    obtain ⟨hc, h⟩ := List.forall_mem_cons.1 h
    have hd : c.toNat - '0'.toNat < 10 := by
      have hr := toNat_of_isDigit hc
      change c.toNat - 48 < 10
      omega
    rw [List.foldlM_cons, hexDigit?_of_isDigit hc, Nat.ofDigitChars_cons, ← ih h, Nat.mul_comm 10]
    simp only [Option.bind_eq_bind, Option.bind_some, if_pos hd]

theorem isDigit_of_mem_repr {n : Nat} {c : Char} (h : c ∈ n.repr.toList) : c.isDigit := by
  rw [Nat.toList_repr] at h
  exact Nat.isDigit_of_mem_toDigits (by decide) (by decide) h

theorem toList_repr_ne_nil (n : Nat) : n.repr.toList ≠ [] := by
  rw [Nat.toList_repr]
  exact Nat.toDigits_ne_nil

/-- A number is read as it is written in decimal digits. -/
theorem digits?_repr (n : Nat) : digits? 10 n.repr.toList = some n := by
  rw [digits?_of_isDigit (toList_repr_ne_nil n) fun c hc => isDigit_of_mem_repr hc,
    Nat.toList_repr, Nat.ofDigitChars_ten_toDigits]

end Text

namespace ParseReport

/-- A report as it is written. It may name the target version that the code was parsed for. -/
def written (version : Option Text) (line column : Nat) (reason : Text) : Text :=
  opening ++ ((version.map (versionClause ++ ·)).getD [] ++ (": ".toList ++
    (line.repr.toList ++ ':' :: (column.repr.toList ++ (": ".toList ++ reason)))))

theorem value?_repr {n : Nat} (h : n < 2 ^ 64) : value? n.repr.toList = some n := by
  have hf : fitsWord n := by simpa [fitsWord] using h
  rw [value?, Text.digits?_repr, Option.bind_eq_bind, Option.bind_some, if_pos hf]

theorem number?_repr (n : Nat) (t : Text) :
    number? (n.repr.toList ++ ':' :: t) = some (n.repr.toList, t) := by
  have hd : ∀ c ∈ n.repr.toList, isDecimalDigit c := fun c hc =>
    isDecimalDigit_of_isDigit (Text.isDigit_of_mem_repr hc)
  have hc : ∀ c ∈ (':' :: t).head?, isDecimalDigit c = false := by
    simp only [List.head?_cons, Option.mem_def, Option.some.injEq, forall_eq']
    decide
  have hn : ¬ n.repr.toList.isEmpty := by
    rw [List.isEmpty_iff]
    exact Text.toList_repr_ne_nil n
  rw [number?, Text.dropWhile_append_of_stop hd hc]
  simp only [Text.takeWhile_append_of_stop hd hc, if_neg hn]

theorem dropClause?_written {version : Option Text} (h : ∀ v ∈ version, v ≠ [] ∧ ':' ∉ v)
    (t : Text) :
    dropClause? ((version.map (versionClause ++ ·)).getD [] ++ ':' :: t) = some (':' :: t) := by
  cases version with
  | none => rfl
  | some v =>
    obtain ⟨hn, hc⟩ := h v rfl
    have hp : versionClause.isPrefixOf? (versionClause ++ (v ++ ':' :: t)) =
        some (v ++ ':' :: t) := List.isPrefixOf?_eq_some_iff_append_eq.2 rfl
    have hv : ∀ c ∈ v, (c != ':') = true := by
      intro c hm
      rw [bne_iff_ne]
      rintro rfl
      exact hc hm
    have hh : (v ++ ':' :: t).head? ≠ some ':' := by
      obtain ⟨c, r, rfl⟩ := List.exists_cons_of_ne_nil hn
      intro he
      rw [List.cons_append, List.head?_cons, Option.some.injEq] at he
      exact hc (he ▸ List.mem_cons_self)
    rw [Option.map_some, Option.getD_some, List.append_assoc, dropClause?, hp]
    simp only [if_neg hh, Text.dropWhile_append_of_stop hv (u := ':' :: t) (by simp)]

/-- A report that stands at the start of a text is read as it was written. -/
theorem ofStart?_written {version : Option Text} {reason rest : Text}
    (hv : ∀ v ∈ version, v ≠ [] ∧ ':' ∉ v) (hr : '\n' ∉ reason) (hn : ∀ c ∈ rest.head?, c = '\n')
    (line column : Nat) :
    ofStart? (written version line column reason ++ rest) =
      some ⟨line.repr.toList, column.repr.toList, reason⟩ := by
  have hline : ∀ c ∈ reason, (c != '\n') = true := by
    intro c hm
    rw [bne_iff_ne]
    rintro rfl
    exact hr hm
  have hend : ∀ c ∈ rest.head?, (c != '\n') = false := by
    intro c hm
    rw [hn c hm]
    rfl
  have hmsg := Text.takeWhile_append_of_stop hline hend
  have hopen : ∀ t : Text, opening.isPrefixOf? (opening ++ t) = some t := fun t =>
    List.isPrefixOf?_eq_some_iff_append_eq.2 rfl
  have hcolon : ∀ t : Text, [':', ' '].isPrefixOf? (':' :: ' ' :: t) = some t := fun t => rfl
  have htext : written version line column reason ++ rest =
      opening ++ ((version.map (versionClause ++ ·)).getD [] ++ ':' :: (' ' ::
        (line.repr.toList ++ ':' ::
          (column.repr.toList ++ ':' :: (' ' :: (reason ++ rest)))))) := by
    simp [written]
  rw [htext, ofStart?, hopen]
  simp only [Option.bind_eq_bind, Option.bind_some, dropClause?_written hv, hcolon, number?_repr,
    List.head?_cons, if_true, List.drop_one, List.tail_cons, hmsg]

section Find

variable {before t : Text}

theorem ofStart?_eq_none (h : ¬ opening <+: t) : ofStart? t = none := by
  have hp : opening.isPrefixOf? t = none := by
    cases hp : opening.isPrefixOf? t with
    | none => rfl
    | some r => exact absurd ⟨r, List.isPrefixOf?_eq_some_iff_append_eq.1 hp⟩ h
  rw [ofStart?, hp]
  rfl

/-- There is no report where the opening words do not occur. -/
theorem find?_eq_none (h : ¬ opening <:+: t) : find? t = none := by
  induction t with
  | nil => rfl
  | cons c t ih =>
    rw [find?, ofStart?_eq_none fun hp => h hp.isInfix, ih fun hi => h (hi.trans ?_)]
    · rfl
    · exact (List.suffix_cons c t).isInfix

/-- The opening words do not end in the way they begin, so two occurrences cannot overlap. -/
theorem not_isPrefix_opening (hn : before ≠ []) (h : ¬ opening <:+: before) :
    ¬ opening <+: before ++ (opening ++ t) := by
  intro hp
  have hb : ∀ i < opening.length, 0 < i → ¬ opening.drop i <+: opening := by decide
  rcases Nat.lt_or_ge before.length opening.length with hl | hl
  · obtain ⟨rest, hr⟩ :=
      List.prefix_of_prefix_length_le (List.prefix_append before _) hp (Nat.le_of_lt hl)
    have hd : opening.drop before.length = rest := by rw [← hr, List.drop_left]
    have hlen : rest.length ≤ opening.length := by
      rw [← hd, List.length_drop]
      omega
    refine hb before.length hl (List.length_pos_of_ne_nil hn) ?_
    rw [hd]
    rw [← hr, List.prefix_append_right_inj, hr] at hp
    exact List.prefix_of_prefix_length_le hp (List.prefix_append opening t) hlen
  · exact h (List.prefix_of_prefix_length_le hp (List.prefix_append before _) hl).isInfix

theorem find?_append (h : ¬ opening <:+: before) :
    find? (before ++ (opening ++ t)) = find? (opening ++ t) := by
  induction before with
  | nil => rfl
  | cons c before ih =>
    rw [List.cons_append, find?, ← List.cons_append,
      ofStart?_eq_none (not_isPrefix_opening (by simp) h), ih fun hi => h (hi.trans ?_)]
    · rfl
    · exact (List.suffix_cons c before).isInfix

theorem find?_of_ofStart? {r : ParseReport} (h : ofStart? t = some r) : find? t = some r := by
  cases t with
  | nil => contradiction
  | cons c t => rw [find?, h, Option.some_or]

end Find

theorem error?_repr {line column : Nat} (hl : line < 2 ^ 64) (hc : column < 2 ^ 64)
    (reason : Text) :
    error? ⟨line.repr.toList, column.repr.toList, reason⟩ =
      some (.unparsable line column reason.trim.toString) := by
  simp only [error?, value?_repr hl, value?_repr hc, Option.bind_eq_bind, Option.bind_some]

end ParseReport

/-- The first report in the output of the formatter is decoded exactly, whatever stands before it
without its opening words and on the lines after it. Without these words there is no parse error. -/
theorem parseError?_decodes :
    (∀ (before rest : Text) (version : Option Text) (line column : Nat) (reason : Text),
      ¬ ParseReport.opening <:+: before → (∀ v ∈ version, v ≠ [] ∧ ':' ∉ v) → line < 2 ^ 64 →
      column < 2 ^ 64 → '\n' ∉ reason → (∀ c ∈ rest.head?, c = '\n') →
      parseError? (before ++ (ParseReport.written version line column reason ++ rest)) =
        some (.unparsable line column reason.trim.toString)) ∧
      ∀ t, ¬ ParseReport.opening <:+: t → parseError? t = none := by
  constructor
  · intro before rest version line column reason hbefore hversion hline hcolumn hreason hrest
    have hstart := ParseReport.ofStart?_written hversion hreason hrest line column
    have hfind := ParseReport.find?_of_ofStart? hstart
    rw [ParseReport.written, List.append_assoc] at hfind ⊢
    rw [parseError?, ParseReport.find?_append hbefore, hfind, Option.bind_some]
    exact ParseReport.error?_repr hline hcolumn reason
  · intro t ht
    rw [parseError?, ParseReport.find?_eq_none ht]
    rfl

/-- What stands before a report may end like the start of one, the version may take up several
lines, and a further report may come after it. -/
theorem parseError?_decodes_twoReports :
    ¬ ParseReport.opening <:+: "error: Cannot Cannot pars".toList ∧
      parseError? ("error: Cannot Cannot pars".toList ++
        (ParseReport.written (some "a\nb".toList) 18446744073709551615 0 " f(\t ".toList ++
          "\nCannot parse: 1:2: g(".toList)) =
        some (.unparsable 18446744073709551615 0 "f(") ∧
      ¬ ParseReport.opening <:+: "cannot parse: 1:2: g(".toList ∧
      parseError? "cannot parse: 1:2: g(".toList = none := by
  have hbefore : ¬ ParseReport.opening <:+: "error: Cannot Cannot pars".toList := by decide +kernel
  have hnone : ¬ ParseReport.opening <:+: "cannot parse: 1:2: g(".toList := by decide +kernel
  have htrim : (Text.trim " f(\t ".toList).toString = "f(" := by decide +kernel
  have hread := parseError?_decodes.1 "error: Cannot Cannot pars".toList
    "\nCannot parse: 1:2: g(".toList (some "a\nb".toList) 18446744073709551615 0 " f(\t ".toList
    hbefore (by simp) (by omega) (by omega) (by simp) (by simp)
  rw [htrim] at hread
  exact ⟨hbefore, hread, hnone, parseError?_decodes.2 _ hnone⟩

end FencedCode
