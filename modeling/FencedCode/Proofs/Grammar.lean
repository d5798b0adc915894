import FencedCode.Proofs.Closing

/-! The grammar of fences, and the blocks of a document as it describes them: which lines a block
stands between, and what it means that no block is missing. The description fits one list of blocks
only, and this is the one that the scan finds. -/
namespace FencedCode

namespace Opener

/-- The grammar of a line that opens a fence. The run of markers is as long as the line has it, and
the info text after backticks holds no backtick. -/
structure Opens (o : Opener) (t : Text) : Prop where
  spelled : t = o.indent ++ (List.replicate o.fence.length o.fence.marker ++ o.info)
  indent : ∀ c ∈ o.indent, c = ' ' ∨ c = '\t'
  marker : o.fence.marker = '\x60' ∨ o.fence.marker = '~'
  length : 3 ≤ o.fence.length
  maximal : o.info.head? ≠ some o.fence.marker
  plain : o.fence.marker = '\x60' → '\x60' ∉ o.info

/-- The grammar of a line that closes a fence: the same indentation, a run of markers that is not
shorter, and then spaces and tabs only. -/
def Closes (o : Opener) (t trailing : Text) : Prop :=
  ∃ k, o.fence.length ≤ k ∧ t = o.indent ++ (List.replicate k o.fence.marker ++ trailing) ∧
    ∀ c ∈ trailing, c = ' ' ∨ c = '\t'

theorem opens_of_ofContent? {t : Text} {o : Opener} (h : ofContent? t = some o) : o.Opens t := by
  rw [ofContent?] at h
  split at h
  · contradiction
  · next m r hr =>
    simp only [Option.ite_none_right_eq_some, Bool.and_eq_true, Bool.or_eq_true, beq_iff_eq,
      decide_eq_true_eq, Bool.not_eq_true', Bool.and_eq_false_iff, beq_eq_false_iff_ne,
      Option.some.injEq] at h
    obtain ⟨⟨⟨hm, hl⟩, hp⟩, rfl⟩ := h
    refine ⟨?_, ?_, hm, hl, ?_, ?_⟩
    · rw [← Text.takeWhile_eq_replicate, List.takeWhile_append_dropWhile,
        List.takeWhile_append_dropWhile]
    · intro c hc
      exact isPadding_iff.1 (List.mem_takeWhile_imp hc)
    · intro hi
      have hd := List.head?_dropWhile_not (· == m) (t.dropWhile isPadding)
      rw [hi] at hd
      simp at hd
    · rintro rfl
      simpa using hp

theorem Opens.ofContent?_eq {t : Text} {o : Opener} (h : o.Opens t) : ofContent? t = some o := by
  obtain ⟨indent, ⟨m, n⟩, info⟩ := o
  obtain ⟨rfl, hi, hm, hl, hx, hp⟩ := h
  simp only at hi hm hl hx hp
  obtain ⟨n, rfl⟩ := Nat.exists_eq_add_of_le' (Nat.le_trans (by decide : 1 ≤ 3) hl)
  have hpad : isPadding m = false := by rcases hm with rfl | rfl <;> decide
  have hrun : ∀ c ∈ List.replicate (n + 1) m, (c == m) = true := by
    intro c hc
    rw [List.eq_of_mem_replicate hc]
    exact beq_self_eq_true m
  have hstop : ∀ c ∈ info.head?, (c == m) = false := by
    rintro c hc
    rw [beq_eq_false_iff_ne]
    rintro rfl
    exact hx hc
  have hstart : ∀ c ∈ (List.replicate (n + 1) m ++ info).head?, isPadding c = false := by
    simpa [List.replicate_succ] using hpad
  have hind : ∀ c ∈ indent, isPadding c := fun c hc => isPadding_iff.2 (hi c hc)
  have hdrop := Text.dropWhile_append_of_stop hind hstart
  have hrest : List.replicate (n + 1) m ++ info = m :: (List.replicate n m ++ info) := rfl
  rw [ofContent?]
  simp only [hdrop, Text.takeWhile_append_of_stop hind hstart]
  rw [hrest]
  simp only [← hrest, Text.takeWhile_append_of_stop hrun hstop,
    Text.dropWhile_append_of_stop hrun hstop, List.length_replicate]
  rw [if_pos]
  rcases hm with rfl | rfl
  · simpa [hl] using hp rfl
  · simpa using hl

theorem WellFormed.closes_iff {o : Opener} (h : o.WellFormed) {t w : Text} :
    o.Closes t w ↔ o.closes? t = some w := by
  simp only [h.closes?_eq_some_iff, Closes, isPadding_iff]

end Opener

/-- What the blocks of a document are by the grammar of fences. Each stands between a line that
opens its fence and the first line after it that closes the fence, and a line outside of all blocks
opens no fence that a later line closes. -/
structure IsScan (ls : List Line) (bs : List Block) : Prop where
  placed : ∀ b ∈ bs, b.startLine = b.fenceLine + 1 ∧ b.startLine ≤ b.endLine ∧
    b.endLine < ls.length
  opened : ∀ b ∈ bs, ∃ l, ls[b.fenceLine]? = some l ∧ b.opener.Opens l.content
  closed : ∀ b ∈ bs, ∃ l, ls[b.endLine]? = some l ∧ b.opener.Closes l.content b.trailing
  first : ∀ b ∈ bs, ∀ i, b.startLine ≤ i → i < b.endLine → ∀ l, ls[i]? = some l →
    ∀ w, ¬ b.opener.Closes l.content w
  ordered : bs.Pairwise fun b c => b.endLine < c.fenceLine
  complete : ∀ i l (o : Opener), ls[i]? = some l → o.Opens l.content → isCovered bs i = false →
    ∀ j, i < j → ∀ m, ls[j]? = some m → ∀ w, ¬ o.Closes m.content w

namespace Fenced

variable {f : Fenced} {pre post : List Line} {l : Line} {i : Nat}

theorem getElem?_close (f : Fenced) (pre post : List Line) :
    (pre ++ f.fence :: (f.body ++ f.close :: post))[pre.length + 1 + f.body.length]? =
      some f.close := by
  rw [Nat.add_assoc, List.getElem?_append_right (by omega), Nat.add_sub_cancel_left, Nat.add_comm 1,
    List.getElem?_cons_succ, List.getElem?_append_right (by omega), Nat.sub_self,
    List.getElem?_cons_zero]

theorem mem_body_of_getElem? (hs : pre.length + 1 ≤ i) (hi : i < pre.length + 1 + f.body.length)
    (hl : (pre ++ f.fence :: (f.body ++ f.close :: post))[i]? = some l) : l ∈ f.body := by
  obtain ⟨n, rfl⟩ := Nat.exists_eq_add_of_le hs
  rw [Nat.add_assoc, List.getElem?_append_right (by omega), Nat.add_sub_cancel_left, Nat.add_comm 1,
    List.getElem?_cons_succ, List.getElem?_append_left (by omega)] at hl
  exact List.mem_of_getElem? hl

/-- A block that begins with the same line ends with the same line, since this is the first one that
closes the fence. -/
theorem eq_of_isScan {bs : List Block}
    (h : IsScan (pre ++ f.fence :: (f.body ++ f.close :: post)) bs)
    (hf : ∀ m ∈ f.body, f.opener.closes? m.content = none) {b : Block} (hb : b ∈ bs)
    (hi : b.fenceLine = pre.length) :
    b = ⟨pre.length, pre.length + 1 + f.body.length, f.opener, f.trailing⟩ := by
  obtain ⟨i, j, o, w⟩ := b
  obtain rfl : i = pre.length := hi
  have hclose := f.getElem?_close pre post
  obtain ⟨l, hl, ho⟩ := h.opened _ hb
  obtain rfl : f.fence = l := by simpa using hl
  obtain rfl : f.opener = o := Option.some.inj (f.opens.symm.trans ho.ofContent?_eq)
  obtain ⟨m, hm, hw⟩ := h.closed _ hb
  have hc := f.wellFormed.closes_iff.2 f.closes
  have hs := (h.placed _ hb).2.1
  simp only [Block.startLine] at hm hw hs
  obtain rfl : j = pre.length + 1 + f.body.length := by
    rcases Nat.lt_trichotomy j (pre.length + 1 + f.body.length) with hlt | heq | hgt
    · have hn := hf m (mem_body_of_getElem? hs hlt hm)
      rw [f.wellFormed.closes_iff, hn] at hw
      contradiction
    · exact heq
    · exact absurd hc (h.first _ hb _ (Nat.le_add_right _ _) hgt _ hclose _)
  obtain rfl : f.close = m := Option.some.inj (hclose.symm.trans hm)
  rw [f.wellFormed.closes_iff, f.closes] at hw
  rw [Option.some.inj hw]

end Fenced

namespace IsScan

variable {pre post : List Line} {bs : List Block}

theorem fenceLine_ne {l : Line} (h : IsScan (pre ++ l :: post) bs)
    (hl : ∀ o, Opener.ofContent? l.content = some o → ∀ m ∈ post, o.closes? m.content = none) :
    ∀ b ∈ bs, b.fenceLine ≠ pre.length := by
  intro b hb hi
  obtain ⟨m, hm, ho⟩ := h.opened b hb
  obtain rfl : l = m := by simpa [hi] using hm
  obtain ⟨m, hm, hw⟩ := h.closed b hb
  have hs := (h.placed b hb).2.1
  rw [Block.startLine] at hs
  rw [List.append_cons, List.getElem?_append_right (by simp; omega)] at hm
  rw [(Opener.wellFormed_of_ofContent? ho.ofContent?_eq).closes_iff,
    hl _ ho.ofContent?_eq m (List.mem_of_getElem? hm)] at hw
  contradiction

/-- Where a fence is opened that is closed later, the next block begins. -/
theorem exists_cons {f : Fenced} {done : List Block}
    (h : IsScan (pre ++ f.fence :: (f.body ++ f.close :: post)) (done ++ bs))
    (hd : ∀ b ∈ done, b.endLine < pre.length) (hb : ∀ b ∈ bs, pre.length ≤ b.fenceLine) :
    ∃ b bs', bs = b :: bs' ∧ b.fenceLine = pre.length := by
  have hcov : isCovered (done ++ bs) pre.length := by
    by_contra hn
    refine h.complete pre.length f.fence f.opener (by simp) ?_ (by simpa using hn) _ ?_ _
      (f.getElem?_close pre post) f.trailing (f.wellFormed.closes_iff.2 f.closes)
    · exact Opener.opens_of_ofContent? f.opens
    · omega
  rw [isCovered, List.any_eq_true] at hcov
  obtain ⟨b, hm, hc⟩ := hcov
  simp only [Bool.and_eq_true, decide_eq_true_eq] at hc
  rcases List.mem_append.1 hm with hm | hm
  · have := hd b hm
    omega
  · have hi := hb b hm
    cases bs with
    | nil => contradiction
    | cons c bs =>
      rcases List.mem_cons.1 hm with rfl | hm
      · exact ⟨b, bs, rfl, by omega⟩
      · -- A block before this one would end before it, and so before it begins itself.
        have hs := (h.placed c (by simp)).2.1
        have hi := hb c List.mem_cons_self
        have ho := (List.pairwise_cons.1 (List.pairwise_append.1 h.ordered).2.1).1 b hm
        rw [Block.startLine] at hs
        omega

end IsScan

namespace Layout

open Fenced

/-- Where the lines of a block stand in a document that has `before` in front of the layout. -/
theorem exists_fenced_of_mem_blocksFrom {ps : Layout} (before : List Line) {b : Block}
    (h : b ∈ blocksFrom before.length ps) :
    ∃ f ∈ fences ps, ∃ pre post,
      before ++ lines ps = pre ++ f.fence :: (f.body ++ f.close :: post) ∧
        b = ⟨pre.length, pre.length + 1 + f.body.length, f.opener, f.trailing⟩ := by
  induction ps generalizing before with
  | nil => simp [blocksFrom] at h
  | cons p ps ih =>
    cases p with
    | line l =>
      have hl : (before ++ [l]).length = before.length + 1 := by simp
      rw [blocksFrom, ← hl] at h
      obtain ⟨f, hf, pre, post, he, hb⟩ := ih _ h
      exact ⟨f, hf, pre, post, by rw [← he]; simp, hb⟩
    | fenced g =>
      rw [blocksFrom, ← length_append_fenced] at h
      rcases List.mem_cons.1 h with rfl | h
      · exact ⟨g, by simp, before, lines ps, by simp, rfl⟩
      · obtain ⟨f, hf, pre, post, he, hb⟩ := ih _ h
        exact ⟨f, by simp [hf], pre, post, by rw [← he]; simp, hb⟩

theorem Proper.closes?_of_mem_body {ps : Layout} (hp : Proper ps) {f : Fenced}
    (hf : f ∈ fences ps) :
    ∀ m ∈ f.body, f.opener.closes? m.content = none := by
  induction ps with
  | nil => contradiction
  | cons p ps ih =>
    cases p with
    | line l => exact ih hp.2 hf
    | fenced g =>
      rcases List.mem_cons.1 hf with rfl | hf
      · exact hp.1
      · exact ih hp.2 hf

/-- A line that opens a fence and lies outside of the blocks stands before lines that do not close
it. -/
theorem Proper.closes?_of_not_isCovered {ps : Layout} (hp : Proper ps) {i k : Nat} {l : Line}
    {o : Opener} (hl : (lines ps)[i]? = some l) (ho : Opener.ofContent? l.content = some o)
    (hc : isCovered (blocksFrom k ps) (k + i) = false) :
    ∀ m ∈ (lines ps).drop (i + 1), o.closes? m.content = none := by
  induction ps generalizing i k with
  | nil => simp at hl
  | cons p ps ih =>
    cases p with
    | line l' =>
      rw [lines_line] at hl ⊢
      cases i with
      | zero =>
        obtain rfl : l' = l := by simpa using hl
        exact hp.1 o ho
      | succ i =>
        rw [blocksFrom, ← Nat.add_assoc, Nat.add_right_comm] at hc
        exact ih hp.2 (by simpa using hl) hc
    | fenced f =>
      rw [blocksFrom, isCovered, List.any_cons, Bool.or_eq_false_iff] at hc
      obtain ⟨hf, hc⟩ := hc
      simp only [Bool.and_eq_false_iff, decide_eq_false_iff_not] at hf
      obtain ⟨n, rfl⟩ : ∃ n, i = f.body.length + 2 + n := ⟨i - (f.body.length + 2), by omega⟩
      have hs : lines (.fenced f :: ps) = (f.fence :: (f.body ++ [f.close])) ++ lines ps := by simp
      have hn : (f.fence :: (f.body ++ [f.close])).length = f.body.length + 2 := by simp
      have hk : k + (f.body.length + 2 + n) = k + 2 + f.body.length + n := by omega
      have hd : f.body.length + 2 + n + 1 =
          (f.fence :: (f.body ++ [f.close])).length + (n + 1) := by
        omega
      rw [hs, ← hn, List.getElem?_append_right (by omega), Nat.add_sub_cancel_left] at hl
      rw [hs, hd, List.drop_length_add_append]
      rw [hk] at hc
      exact ih hp.2 hl hc

theorem Proper.isScan {ps : Layout} (hp : Proper ps) : IsScan (lines ps) (blocks ps) := by
  have hfound : ∀ b ∈ blocks ps, _ := fun b hb => exists_fenced_of_mem_blocksFrom [] hb
  constructor
  · intro b hb
    have hi := fenceLine_of_mem_blocksFrom hb
    exact ⟨rfl, hi.2.1, by simpa using hi.2.2⟩
  · intro b hb
    obtain ⟨f, -, pre, post, he, rfl⟩ := hfound b hb
    refine ⟨f.fence, ?_, Opener.opens_of_ofContent? f.opens⟩
    rw [List.nil_append] at he
    simp [he]
  · intro b hb
    obtain ⟨f, -, pre, post, he, rfl⟩ := hfound b hb
    refine ⟨f.close, ?_, f.wellFormed.closes_iff.2 f.closes⟩
    rw [List.nil_append] at he
    rw [he, getElem?_close]
  · intro b hb i hs hi l hl w hw
    obtain ⟨f, hf, pre, post, he, rfl⟩ := hfound b hb
    rw [List.nil_append] at he
    rw [he] at hl
    have hm := mem_body_of_getElem? hs hi hl
    rw [f.wellFormed.closes_iff, hp.closes?_of_mem_body hf l hm] at hw
    contradiction
  · exact pairwise_blocksFrom ps 0
  · intro i l o hl ho hc j hj m hm w hw
    have ho' := ho.ofContent?_eq
    have hd : m ∈ (lines ps).drop (i + 1) := by
      refine List.mem_of_getElem? (i := j - (i + 1)) ?_
      rw [List.getElem?_drop, ← hm]
      congr 1
      omega
    rw [(Opener.wellFormed_of_ofContent? ho').closes_iff,
      hp.closes?_of_not_isCovered hl ho' (k := 0) ((Nat.zero_add i).symm ▸ hc) m hd] at hw
    contradiction

/-- The blocks that are left of a scan after `done`, where the layout is left of the document. -/
theorem Proper.eq_blocksFrom {ps : Layout} (hp : Proper ps) (before : List Line)
    (done : List Block) {bs : List Block} (h : IsScan (before ++ lines ps) (done ++ bs))
    (hd : ∀ b ∈ done, b.endLine < before.length) (hb : ∀ b ∈ bs, before.length ≤ b.fenceLine) :
    bs = blocksFrom before.length ps := by
  induction ps generalizing before done bs with
  | nil =>
    cases bs with
    | nil => rfl
    | cons b bs =>
      have hl := (h.placed b (by simp)).2
      have hs := hb b List.mem_cons_self
      simp only [Block.startLine, lines_nil, List.append_nil] at hl
      omega
  | cons p ps ih =>
    cases p with
    | line l =>
      have hlen : (before ++ [l]).length = before.length + 1 := by simp
      rw [lines_line] at h
      have hn := h.fenceLine_ne hp.1
      rw [List.append_cons] at h
      rw [blocksFrom, ← hlen]
      refine ih hp.2 _ _ h (fun b hm => ?_) fun b hm => ?_
      · have := hd b hm
        omega
      · have := hb b hm
        have := hn b (List.mem_append_right done hm)
        omega
    | fenced f =>
      rw [lines_fenced] at h
      obtain ⟨b, bs, rfl, hi⟩ := h.exists_cons hd hb
      have he := Fenced.eq_of_isScan h hp.1 (List.mem_append_right done List.mem_cons_self) hi
      have hlen := length_append_fenced before f
      have hr := (List.pairwise_cons.1 (List.pairwise_append.1 h.ordered).2.1).1
      rw [← lines_fenced, ← append_lines_fenced, List.append_cons done] at h
      rw [blocksFrom, ← hlen, he]
      refine congrArg (_ :: ·) (ih hp.2 _ _ h (fun c hm => ?_) fun c hm => ?_)
      · rcases List.mem_append.1 hm with hm | hm
        · have := hd c hm
          omega
        · rw [List.mem_singleton.1 hm, he]
          simp only
          omega
      · have := hr c hm
        rw [he] at this
        simp only at this
        omega

end Layout

/-- The blocks that the scan finds are those of the grammar, and no other list of blocks is. -/
theorem blocks_isScan (text : Text) : IsScan text.splitLines text.blocks ∧
    ∀ bs, IsScan text.splitLines bs → bs = text.blocks := by
  obtain ⟨ps, hl, hp⟩ := Layout.exists_proper text.splitLines
  rw [← hp.blocks_eq hl, ← hl]
  refine ⟨hp.isScan, fun bs h => ?_⟩
  exact hp.eq_blocksFrom [] [] h (by simp) (by simp)

end FencedCode
