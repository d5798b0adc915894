import FencedCode.Proofs.Joining
import FencedCode.Proofs.Lines
import FencedCode.Proofs.Spacing
import Mathlib.Data.List.DropRight

/-! Tidying twice. A statement that is written on one line is read back as one statement, which
is written the same way again; so are the blank lines between statements. -/
namespace FencedCode.Tidy

section Comments

variable {n k : Nat} {acc r t u : Text} {ms : List Mark}

theorem splitCommentFrom_inside {q : Char} {i : Text} (h : Inside q i) :
    splitCommentFrom acc (.string q false) (i ++ r) =
      splitCommentFrom (i.reverse ++ acc) (.string q false) r := by
  induction h generalizing acc with
  | nil => rfl
  | @escape c t _ ih =>
    rw [List.cons_append, List.cons_append, splitCommentFrom, Mode.inString,
      if_neg Bool.false_ne_true, if_pos rfl, splitCommentFrom, Mode.inString, if_pos rfl, ih]
    simp
  | @plain c t hs hd _ ih =>
    rw [List.cons_append, splitCommentFrom, Mode.inString, if_neg Bool.false_ne_true, if_neg hs,
      if_neg hd, ih]
    simp

theorem splitCommentFrom_literal {w : Text} (h : IsLiteral w) :
    splitCommentFrom acc .code (w ++ r) = splitCommentFrom (w.reverse ++ acc) .code r := by
  obtain ⟨hq, hi⟩ := h
  rename_i quote t
  rw [List.cons_append, splitCommentFrom, if_neg (ne_sign_of_isQuote hq), if_pos hq,
    List.append_assoc, splitCommentFrom_inside hi, List.singleton_append, splitCommentFrom,
    Mode.inString, if_neg Bool.false_ne_true, if_neg (ne_slash_of_isQuote hq), if_pos rfl]
  simp

theorem Code.splitCommentFrom (h : Code n k t ms) :
    splitCommentFrom acc .code (t ++ r) = splitCommentFrom (t.reverse ++ acc) .code r := by
  induction h generalizing acc with
  | nil => rfl
  | literal hw _ ih =>
    rw [List.append_assoc, splitCommentFrom_literal hw, ih, List.reverse_append, List.append_assoc]
  | bracket hb _ ih =>
    rw [List.cons_append, Tidy.splitCommentFrom, if_neg (ne_sign_of_isBracket hb),
      isQuote_of_isBracket hb, if_neg Bool.false_ne_true, ih]
    simp
  | plain hs hq _ _ ih =>
    rw [List.cons_append, Tidy.splitCommentFrom, if_neg hs, hq, if_neg Bool.false_ne_true, ih]
    simp

theorem Code.splitComment (h : Code n k t ms) : splitComment t = (t, none) := by
  have hs : Tidy.splitCommentFrom [] .code (t ++ []) = _ := h.splitCommentFrom
  rw [List.append_nil, List.append_nil, Tidy.splitCommentFrom, List.reverse_reverse] at hs
  exact hs

theorem Code.splitComment_append (h : Code n k t ms) (u : Text) :
    Tidy.splitComment (t ++ '#' :: u) = (t, some ('#' :: u)) := by
  rw [Tidy.splitComment, h.splitCommentFrom, Tidy.splitCommentFrom, if_pos rfl, List.append_nil,
    List.reverse_reverse]

/-- A tidy comment stays as it is; it starts with its sign and ends in a visible character. -/
structure TidyComment (c : Text) : Prop where
  again : tidyComment c = c
  sign : ∃ r, c = '#' :: r
  last : ∀ d ∈ c.getLast?, isBlank d = false
  unbroken : '\n' ∉ c

theorem tidyComment_tidy (hn : '\n' ∉ u) : TidyComment (tidyComment u) := by
  rw [tidyComment]
  generalize hb : Text.trim (u.dropWhile (· == '#')) = body
  have hf : ∀ c ∈ body.head?, isBlank c = false := by
    rw [← hb]
    exact fun c hc => Text.not_isBlank_of_head?_trim hc
  have hl : ∀ c ∈ body.getLast?, isBlank c = false := by
    rw [← hb]
    exact fun c hc => Text.not_isBlank_of_getLast?_trim hc
  have hnb : '\n' ∉ body := by
    rw [← hb]
    intro hm
    exact hn ((List.dropWhile_suffix _).subset (Statement.mem_of_mem_trim hm))
  cases body with
  | nil => exact ⟨rfl, ⟨[], rfl⟩, by rintro d ⟨⟩; decide, by decide⟩
  | cons c body =>
    refine ⟨?_, ⟨' ' :: c :: body, rfl⟩, ?_, ?_⟩
    · have ht : Text.trim (' ' :: c :: body) = c :: body := by
        rw [Text.trim, Text.trimStart, List.dropWhile_cons_of_pos (by decide)]
        exact Text.trim_eq_self hf hl
      rw [List.isEmpty_cons, if_neg Bool.false_ne_true, tidyComment,
        List.dropWhile_cons_of_pos (by decide), List.dropWhile_cons_of_neg (by decide), ht]
      rfl
    · rw [List.isEmpty_cons, if_neg Bool.false_ne_true, List.getLast?_cons_cons,
        List.getLast?_cons_cons]
      exact hl
    · rw [List.isEmpty_cons, if_neg Bool.false_ne_true, List.mem_cons, List.mem_cons, not_or,
        not_or]
      exact ⟨by decide, by decide, hnb⟩

end Comments

/-- The text of a statement as it is written on one line. -/
def tidied (normalize : Bool) (t : Text) : Text :=
  let code := settle normalize (splitComment t).1
  match (splitComment t).2 with
  | none => code
  | some comment =>
    if code.isEmpty then tidyComment comment else code ++ ' ' :: ' ' :: tidyComment comment

/-- The lines of a call that is broken up. -/
def brokenLines (indent head : Text) (args : List Text) : List Text :=
  (indent ++ head ++ ['(']) ::
    (args.map fun arg => indent ++ [' ', ' ', ' ', ' '] ++ arg ++ [',']) ++ [indent ++ [')']]

/-- The head and the arguments of code that is too long for its line, if it is a call. -/
def call? (options : FormatOptions) (indent code : Text) : Option (Text × List Text) :=
  if options.lineLength < (indent ++ code).length then explode code else none

section Render

variable {options : FormatOptions} {s : Statement} {code comment : Text}

theorem render_of_comment (h : splitComment s.text = (code, some comment)) :
    render options s = [s.indent ++ tidied options.stringNormalization s.text] := by
  simp only [render, tidied, h]
  split_ifs
  · rfl
  · rw [List.append_assoc, List.append_assoc]
    rfl

theorem render_of_code (h : splitComment s.text = (code, none)) :
    render options s =
      match call? options s.indent (settle options.stringNormalization code) with
      | some (head, args) => brokenLines s.indent head args
      | none => [s.indent ++ tidied options.stringNormalization s.text] := by
  simp only [render, tidied, h, call?, brokenLines]
  split_ifs <;> rfl

/-- A statement on one line is written as its tidy text after its indentation. -/
theorem render_of_length (h : (render options s).length = 1) :
    render options s = [s.indent ++ tidied options.stringNormalization s.text] := by
  cases hs : splitComment s.text with
  | mk code comment =>
    cases comment with
    | some comment => exact render_of_comment hs
    | none =>
      rw [render_of_code hs] at h ⊢
      split at h
      · simp [brokenLines] at h
      · rfl

namespace Statement

/-- What is kept of a statement when its text is tidied. -/
structure Tidied (normalize : Bool) (s : Statement) (t : Text) : Prop where
  sound : (⟨s.indent, t⟩ : Statement).Sound
  first : ∀ c ∈ t.head?, isBlank c = false
  last : ∀ c ∈ t.getLast?, isBlank c = false
  visible : s.text ≠ [] → t ≠ []
  again : tidied normalize t = t
  render : ∀ options : FormatOptions, options.stringNormalization = normalize →
    render options ⟨s.indent, t⟩ = render options s

theorem isAllBlank_eq_false {t : Text} (h : ∀ c ∈ t.head?, isBlank c = false) (hn : t ≠ []) :
    t.isAllBlank = false := by
  obtain ⟨c, r, rfl⟩ := List.exists_cons_of_ne_nil hn
  rw [Text.isAllBlank, List.all_cons, h c rfl, Bool.false_and]

theorem Sound.tidied_code (h : s.Sound) {ms : List Mark} (hc : Code 0 0 s.text ms)
    (hw : Balanced (word ms)) (normalize : Bool) :
    Tidied normalize s (tidied normalize s.text) := by
  have hs := hc.settled h.unbroken normalize
  have he : tidied normalize s.text = settle normalize s.text := by rw [tidied, hc.splitComment]
  generalize hk : settle normalize s.text = k at hs he
  obtain ⟨ms', hc', hw'⟩ := hs.code
  have hn : settle normalize k = k := by
    have hn := hs.again [] (by simp)
    rwa [List.append_nil] at hn
  have ha : tidied normalize k = k := by
    rw [tidied, hc'.splitComment]
    exact hn
  rw [he]
  refine ⟨⟨h.indent, hs.unbroken, isAllBlank_eq_false hs.first, _, .code hc', hw' ▸ hw⟩, hs.first,
    hs.last, fun ht hz => ?_, ha, ?_⟩
  · have hb := hs.blank hz
    rw [h.visible ht] at hb
    contradiction
  · rintro options rfl
    rw [render_of_code hc.splitComment, render_of_code (s := ⟨s.indent, k⟩) hc'.splitComment, hk,
      hn, ha, he]

/-- Two spaces stand between code and a comment. -/
def gapAfter (code : Text) : Text := if code.isEmpty then [] else [' ', ' ']

theorem tidied_of_comment {normalize : Bool} {t c comment : Text}
    (h : splitComment t = (c, some comment)) :
    tidied normalize t =
      settle normalize c ++ gapAfter (settle normalize c) ++ tidyComment comment := by
  simp only [tidied, h, gapAfter]
  split_ifs with hc
  · rw [List.isEmpty_iff.1 hc]
    rfl
  · rw [List.append_assoc]
    rfl

theorem Sound.tidied_comment (h : s.Sound) {t u : Text} {ms : List Mark}
    (ht : s.text = t ++ '#' :: u) (hc : Code 0 0 t ms) (hw : Balanced (word ms))
    (normalize : Bool) : Tidied normalize s (tidied normalize s.text) := by
  have hn := h.unbroken
  rw [ht, List.mem_append, not_or] at hn
  have hs := hc.settled hn.1 normalize
  have hm := tidyComment_tidy hn.2
  have hsplit : splitComment s.text = (t, some ('#' :: u)) := ht ▸ hc.splitComment_append u
  generalize hk : settle normalize t = k at hs
  generalize hd : tidyComment ('#' :: u) = d at hm
  have he : tidied normalize s.text = k ++ gapAfter k ++ d := by
    rw [tidied_of_comment hsplit, hk, hd]
  have hb : ∀ c ∈ gapAfter k, isBlank c := by
    rw [gapAfter]
    split_ifs
    · simp
    · simp only [List.mem_cons, List.not_mem_nil, or_false, or_self, forall_eq]
      decide
  obtain ⟨r, rfl⟩ := hm.sign
  obtain ⟨ms', hc', hw'⟩ := hs.code
  have hcode : Code 0 0 (k ++ gapAfter k) ms' := by
    rw [← List.append_nil ms']
    exact hc'.append (code_of_isAllBlank hb 0 _)
  have hsplit' := hcode.splitComment_append r
  have ha : tidied normalize (k ++ gapAfter k ++ '#' :: r) = k ++ gapAfter k ++ '#' :: r := by
    rw [tidied_of_comment hsplit', hs.again _ hb, hm.again]
  have hfirst : ∀ c ∈ (k ++ gapAfter k ++ '#' :: r).head?, isBlank c = false := by
    cases k with
    | nil =>
      rintro c ⟨⟩
      decide
    | cons x k => exact hs.first
  have hne : k ++ gapAfter k ++ '#' :: r ≠ [] := by simp
  rw [he]
  refine ⟨⟨h.indent, ?_, isAllBlank_eq_false hfirst, _, .comment hcode, hw' ▸ hw⟩, hfirst, ?_,
    fun _ => hne, ha, ?_⟩
  · rw [List.mem_append, List.mem_append, not_or, not_or]
    refine ⟨⟨hs.unbroken, ?_⟩, hm.unbroken⟩
    rw [gapAfter]
    split_ifs <;> decide
  · rw [List.getLast?_append_of_ne_nil _ (by simp)]
    exact hm.last
  · rintro options rfl
    rw [render_of_comment hsplit, render_of_comment (s := ⟨s.indent, _⟩) hsplit', ha, he]

theorem Sound.tidied (h : s.Sound) (normalize : Bool) :
    Tidied normalize s (tidied normalize s.text) := by
  obtain ⟨w, hp, hw⟩ := h.phrase
  generalize ht : s.text = t at hp
  cases hp with
  | code hc =>
    subst ht
    exact h.tidied_code hc hw normalize
  | comment hc =>
    rw [← ht]
    exact h.tidied_comment ht hc hw normalize

end Statement

end Render

section Layout

variable {options : FormatOptions} {l : Text} {ls : List Text} {s : Statement}

/-- A line that is not blank and is written as it is read. -/
structure Kept (options : FormatOptions) (l : Text) : Prop where
  unbroken : '\n' ∉ l
  last : ∀ c ∈ l.getLast?, isBlank c = false
  visible : l.isAllBlank = false
  text : (Statement.ofLine l).text ≠ []
  render : render options (.ofLine l) = [l]
  scan : ∀ n, scanLine n 0 .code [] l = .ok []

theorem ofLine_append {indent t : Text} (hi : ∀ c ∈ indent, isBlank c)
    (hf : ∀ c ∈ t.head?, isBlank c = false) (hl : ∀ c ∈ t.getLast?, isBlank c = false) :
    Statement.ofLine (indent ++ t) = ⟨indent, t⟩ := by
  rw [Statement.ofLine, Text.takeWhile_append_of_stop hi hf, Text.trim,
    Text.trimStart_append_of_blank hi, ← Text.trim, Text.trim_eq_self hf hl]

/-- The line of a sound statement has no bracket that is open at its end. -/
theorem Statement.Sound.scanLine (h : s.Sound) (n : Nat) :
    scanLine n 0 .code [] (s.indent ++ s.text) = .ok [] := by
  obtain ⟨w, hp, hw⟩ := h.phrase
  have hi : Code n 0 s.indent [] := code_of_isAllBlank (fun c hc => (h.indent c hc).1) n 0
  generalize s.text = t at hp
  rw [scanLine_eq_follow, hi.marksFrom_append, List.nil_append]
  cases hp with
  | code hc =>
    obtain ⟨ms, hc, he⟩ := hc.move n (0 + s.indent.length)
    have hm := hc.marksFrom_append []
    rw [List.append_nil, marksFrom, List.append_nil] at hm
    rw [hm]
    exact follow_of_balanced (he ▸ hw) hc.closed []
  | comment hc =>
    obtain ⟨ms, hc, he⟩ := hc.move n (0 + s.indent.length)
    rw [hc.marksFrom_append, marksFrom, if_pos rfl, List.append_nil]
    exact follow_of_balanced (he ▸ hw) hc.closed []

theorem Statement.Sound.kept (h : s.Sound) (ht : s.text ≠ []) (hl : (render options s).length = 1) :
    ∃ l, render options s = [l] ∧ Kept options l := by
  have hd := h.tidied options.stringNormalization
  have hr := render_of_length hl
  generalize Tidy.tidied options.stringNormalization s.text = t at hd hr
  have hne := hd.visible ht
  have hb : t.isAllBlank = false := hd.sound.visible hne
  have ho := ofLine_append (fun c hc => (h.indent c hc).1) hd.first hd.last
  refine ⟨s.indent ++ t, hr, ?_, ?_, ?_, ?_, ?_, hd.sound.scanLine⟩
  · rw [List.mem_append, not_or]
    exact ⟨fun hm => (h.indent _ hm).2 rfl, hd.sound.unbroken⟩
  · rw [List.getLast?_append_of_ne_nil _ hne]
    exact hd.last
  · rw [Text.isAllBlank_append, hb, Bool.and_false]
  · rw [ho]
    exact hne
  · rw [ho, hd.render options rfl, hr]

/-- Lines, the last one first, of which none has to go: the first is not blank, and two blank ones
at most stand together. -/
inductive Stacked (options : FormatOptions) : List Text → Prop
  | nil : Stacked options []
  | blank {ls : List Text} (below : Stacked options ls) (top : ls ≠ [])
      (few : (ls.takeWhile List.isEmpty).length < 2) : Stacked options ([] :: ls)
  | line {l : Text} {ls : List Text} (below : Stacked options ls) (kept : Kept options l) :
      Stacked options (l :: ls)

theorem Kept.ne_nil (h : Kept options l) : l ≠ [] := by
  rintro rfl
  exact absurd h.visible (by decide)

namespace Stacked

theorem addStatement (h : Stacked options ls) (hs : s.Sound) (hl : (render options s).length = 1) :
    Stacked options (addStatement options ls s) := by
  rw [Tidy.addStatement]
  split_ifs with ht hb
  · exact h
  · rw [Bool.or_eq_true, not_or, List.isEmpty_iff, decide_eq_true_iff] at hb
    exact .blank h hb.1 (by omega)
  · obtain ⟨l, hr, hk⟩ := hs.kept (by simpa using ht) hl
    rw [hr]
    exact .line h hk

/-- Statements that are written on one line each give lines of which none has to go. -/
theorem foldl {ss : List Statement} (h : Stacked options ls) (hs : ∀ s ∈ ss, s.Sound)
    (hl : ∀ s ∈ ss, (render options s).length = 1) :
    Stacked options (ss.foldl (Tidy.addStatement options) ls) := by
  induction ss generalizing ls with
  | nil => exact h
  | cons s ss ih =>
    obtain ⟨hs, hss⟩ := List.forall_mem_cons.1 hs
    obtain ⟨hl, hls⟩ := List.forall_mem_cons.1 hl
    exact ih (h.addStatement hs hl) hss hls

theorem of_append {us : List Text} (h : Stacked options (us ++ ls)) : Stacked options ls := by
  induction us with
  | nil => exact h
  | cons u us ih =>
    cases h with
    | blank below => exact ih below
    | line below => exact ih below

theorem cases_of_mem (h : Stacked options ls) : ∀ l ∈ ls, l = [] ∨ Kept options l := by
  induction h with
  | nil => simp
  | blank _ _ _ ih => exact List.forall_mem_cons.2 ⟨.inl rfl, ih⟩
  | line _ hk ih => exact List.forall_mem_cons.2 ⟨.inr hk, ih⟩

/-- Such lines are written as they are read. -/
theorem foldl_ofLine (h : Stacked options ls) :
    (ls.reverse.map Statement.ofLine).foldl (Tidy.addStatement options) [] = ls := by
  induction h with
  | nil => rfl
  | @blank ls _ top few ih =>
    have he : ¬ (ls.isEmpty || decide (2 ≤ (ls.takeWhile List.isEmpty).length)) = true := by
      rw [Bool.or_eq_true, not_or, List.isEmpty_iff, decide_eq_true_iff]
      exact ⟨top, by omega⟩
    rw [List.reverse_cons, List.map_append, List.foldl_append, ih]
    exact if_neg he
  | @line l ls _ hk ih =>
    rw [List.reverse_cons, List.map_append, List.foldl_append, ih, List.map_singleton,
      List.foldl_cons, List.foldl_nil, Tidy.addStatement, if_neg (by simpa using hk.text),
      hk.render]
    rfl

/-- The first line is not blank. -/
theorem kept_getLast? (h : Stacked options ls) : ∀ l ∈ ls.getLast?, Kept options l := by
  induction h with
  | nil => simp
  | @blank ls _ top _ ih =>
    obtain ⟨m, ms, rfl⟩ := List.exists_cons_of_ne_nil top
    rwa [List.getLast?_cons_cons]
  | @line l ls _ hk ih =>
    cases ls with
    | nil =>
      rintro - ⟨⟩
      exact hk
    | cons m ms => rwa [List.getLast?_cons_cons]

theorem eq_nil_of_isAllBlank (h : Stacked options ls) (hl : l ∈ ls) (hb : l.isAllBlank) :
    l = [] := by
  refine (h.cases_of_mem l hl).resolve_right fun hk => ?_
  rw [hk.visible] at hb
  contradiction

theorem not_three_blank {us vs : List Text} {a b c : Text}
    (h : Stacked options (us ++ a :: b :: c :: vs)) (ha : a.isAllBlank) (hb : b.isAllBlank)
    (hc : c.isAllBlank) : False := by
  obtain rfl := h.eq_nil_of_isAllBlank (by simp) ha
  obtain rfl := h.eq_nil_of_isAllBlank (by simp) hb
  obtain rfl := h.eq_nil_of_isAllBlank (by simp) hc
  cases h.of_append with
  | blank _ _ few =>
    rw [List.takeWhile_cons_of_pos rfl, List.takeWhile_cons_of_pos rfl, List.length_cons,
      List.length_cons] at few
    omega
  | line _ hk => exact hk.ne_nil rfl

end Stacked

/-- Lines without open brackets are statements of their own. -/
theorem statementsFrom_lines (n : Nat) (h : ∀ l ∈ ls, l = [] ∨ Kept options l) :
    statementsFrom n [] none ls = .ok (ls.map Statement.ofLine) := by
  induction ls generalizing n with
  | nil => rfl
  | cons l ls ih =>
    obtain ⟨hl, hls⟩ := List.forall_mem_cons.1 h
    have hs : scanLine n 0 .code [] l = .ok [] := by
      rcases hl with rfl | hl
      · rfl
      · exact hl.scan n
    rw [statementsFrom_cons, hs]
    change statementsFrom (n + 1) [] none ls >>= _ = _
    rw [ih (n + 1) hls]
    rfl

theorem lines_flatMap (h : ∀ l ∈ ls, l = [] ∨ Kept options l) :
    Text.lines (ls.flatMap (· ++ ['\n'])) = ls := by
  have hn : ∀ l ∈ ls, '\n' ∉ l := by
    intro l hl
    rcases h l hl with rfl | hk
    · simp
    · exact hk.unbroken
  rw [Text.lines, Text.splitLines_flatMap_lf hn, List.map_map]
  refine (List.map_congr_left fun l hl => ?_).trans (List.map_id ls)
  have hr : l.getLast? ≠ some '\r' := by
    intro hr
    rcases h l hl with rfl | hk
    · contradiction
    · exact absurd (hk.last _ hr) (by decide)
  rw [Function.comp_apply, Line.ofText_append_lf, if_neg hr, id]

namespace Stacked

theorem dropWhile (h : Stacked options ls) : Stacked options (ls.dropWhile List.isEmpty) := by
  have ht : Stacked options (ls.takeWhile List.isEmpty ++ ls.dropWhile List.isEmpty) := by
    rwa [List.takeWhile_append_dropWhile]
  exact ht.of_append

theorem lines_eq (h : Stacked options ls) :
    Text.lines (ls.reverse.flatMap (· ++ ['\n'])) = ls.reverse :=
  lines_flatMap fun l hl => h.cases_of_mem l (List.mem_reverse.1 hl)

/-- Lines that are stacked without a blank one at the end are tidy. -/
theorem format_eq (h : Stacked options ls) (hd : ls.dropWhile List.isEmpty = ls) :
    format (ls.reverse.flatMap (· ++ ['\n'])) options =
      .ok (ls.reverse.flatMap (· ++ ['\n'])) := by
  have hs := statementsFrom_lines 1 fun l hl => h.cases_of_mem l (List.mem_reverse.1 hl)
  rw [format, statements, h.lines_eq, hs, Except.map, layout, h.foldl_ofLine, hd]

/-- A tidy text ends in one line feed. -/
theorem exists_end (h : Stacked options ls) (hd : ls.dropWhile List.isEmpty = ls) :
    ls.reverse.flatMap (· ++ ['\n']) = [] ∨
      ∃ u c, ls.reverse.flatMap (· ++ ['\n']) = u ++ [c, '\n'] ∧ c ≠ '\n' := by
  cases h with
  | nil => exact .inl rfl
  | @blank ls _ _ _ =>
    rw [List.dropWhile_cons_of_pos rfl] at hd
    have hlen := (List.dropWhile_suffix List.isEmpty (l := ls)).length_le
    rw [hd, List.length_cons] at hlen
    omega
  | @line l ls _ hk =>
    obtain ⟨v, c, rfl⟩ := (List.eq_nil_or_concat l).resolve_left hk.ne_nil
    refine .inr ⟨ls.reverse.flatMap (· ++ ['\n']) ++ v, c, by simp, ?_⟩
    rintro rfl
    exact hk.unbroken (by simp)

end Stacked

end Layout

/-- A source is tidy after it was tidied once, if every statement is written on one line and no line
with a comment leaves a bracket open. A tidy source has no blank lines at its ends and no three of
them together. -/
theorem format_idempotent {source t : Text} {options : FormatOptions} {ss : List Statement}
    (h : format source options = .ok t) (hs : statements source = .ok ss)
    (hc : ∀ ls l rest ms, source.lines = ls ++ l :: rest → HasComment l →
      ReadsLines 1 (ls ++ [l]) ms → Balanced (word ms))
    (hl : ∀ s ∈ ss, (render options s).length = 1) :
    format t options = .ok t ∧
      (t = [] ∨ ∃ u c, t = u ++ [c, '\n'] ∧ c ≠ '\n') ∧
      (∀ l ∈ t.lines.head?, l.isAllBlank = false) ∧
      ∀ us a b c vs, t.lines = us ++ a :: b :: c :: vs →
        ¬ (a.isAllBlank ∧ b.isAllBlank ∧ c.isAllBlank) := by
  have hsound : ∀ s ∈ ss, s.Sound := by
    refine Statement.sound_of_statementsFrom hs Statement.growing_none ?_ ?_
    · exact fun l hm => Text.unbroken_of_mem_lines hm
    · intro us l vs s he hm hf
      have hb := hc us l vs _ he hm (readsLines_iff.2 rfl)
      rw [follow_of_balanced hb (terminated_of_follow hf)] at hf
      exact (Except.ok.inj hf).symm
  have hst := Stacked.foldl .nil hsound hl
  have hd := hst.dropWhile
  have htop : ((ss.foldl (addStatement options) []).dropWhile List.isEmpty).dropWhile List.isEmpty =
      (ss.foldl (addStatement options) []).dropWhile List.isEmpty := List.dropWhile_idempotent _ _
  rw [format, hs, Except.map, layout] at h
  generalize (ss.foldl (addStatement options) []).dropWhile List.isEmpty = ds at h hd htop
  obtain rfl := Except.ok.inj h
  refine ⟨hd.format_eq htop, hd.exists_end htop, ?_, ?_⟩
  · rw [hd.lines_eq, List.head?_reverse]
    exact fun l hl => (hd.kept_getLast? l hl).visible
  · rintro us a b c vs he ⟨ha, hb, hc⟩
    rw [hd.lines_eq, List.reverse_eq_iff] at he
    have hr : (us ++ a :: b :: c :: vs).reverse = vs.reverse ++ c :: b :: a :: us.reverse := by simp
    rw [he, hr] at hd
    exact hd.not_three_blank hc hb ha

/-- A call over three lines, of which one is blank and the last has a comment, and blank lines after
it. -/
def joinedCall : Text := "x = f( 'a',\n\n  [1,2] )  #c\n\n\n\n  y=1 \n".toList

theorem format_idempotent_joinedCall :
    format joinedCall {} = .ok "x = f(\"a\", [1, 2])  # c\n\n\n  y=1\n".toList ∧
      format "x = f(\"a\", [1, 2])  # c\n\n\n  y=1\n".toList {} =
        .ok "x = f(\"a\", [1, 2])  # c\n\n\n  y=1\n".toList := by
  have h : format joinedCall {} = .ok "x = f(\"a\", [1, 2])  # c\n\n\n  y=1\n".toList := by
    decide +kernel
  have hs : statements joinedCall =
      .ok [⟨[], "x = f( 'a',  [1,2] )  #c".toList⟩, ⟨[], []⟩, ⟨[], []⟩, ⟨[], []⟩,
        ⟨[' ', ' '], "y=1".toList⟩] := by
    decide +kernel
  have hf : ∀ i < 7, (joinedCall.lines.drop i).head?.any (List.elem '#') →
      follow [] (marksOf 1 (joinedCall.lines.take (i + 1))) = .ok [] := by
    decide +kernel
  have hlen : joinedCall.lines.length = 7 := by decide +kernel
  refine ⟨h, (format_idempotent h hs ?_ (by decide +kernel)).1⟩
  rintro ls l rest ms he ⟨c, u, -, rfl, -⟩ hr
  rw [readsLines_iff.1 hr]
  have hb := hf ls.length
  rw [he] at hlen hb
  have ht : (ls ++ (c ++ '#' :: u) :: rest).take (ls.length + 1) = ls ++ [c ++ '#' :: u] := by
    rw [List.append_cons, List.take_left' (by simp)]
  rw [List.drop_left, ht] at hb
  refine (follow_eq_nil_iff.1 (hb ?_ (by simp))).2
  rw [← hlen, List.length_append, List.length_cons]
  omega

end FencedCode.Tidy
