import FencedCode.Proofs.Layout
import FencedCode.Proofs.Space

/-! The lines that close a fence, and the fences that are open where a block stands. New bodies
leave the blocks of a document in place exactly if no new line closes a fence open there. -/
namespace FencedCode

namespace Fence

/-- A fence is closed by a run of its marker that is long enough, with spaces and tabs after it. -/
theorem closes?_eq_some_iff {f : Fence} (hm : isPadding f.marker = false) {t w : Text} :
    f.closes? t = some w ↔
      ∃ n, f.length ≤ n ∧ t = List.replicate n f.marker ++ w ∧ ∀ c ∈ w, isPadding c := by
  simp only [closes?, Option.ite_none_right_eq_some, Bool.and_eq_true, decide_eq_true_eq,
    List.all_eq_true, Option.some.injEq]
  constructor
  · rintro ⟨⟨hl, hp⟩, rfl⟩
    refine ⟨_, hl, ?_, hp⟩
    rw [← Text.takeWhile_eq_replicate, List.takeWhile_append_dropWhile]
  · rintro ⟨n, hl, rfl, hp⟩
    have hr : ∀ c ∈ List.replicate n f.marker, (c == f.marker) = true := by
      intro c hc
      rw [List.eq_of_mem_replicate hc]
      exact beq_self_eq_true _
    have hw : ∀ c ∈ w.head?, (c == f.marker) = false := by
      intro c hc
      rw [beq_eq_false_iff_ne]
      rintro rfl
      rw [hp _ (List.mem_of_mem_head? hc)] at hm
      contradiction
    rw [Text.takeWhile_append_of_stop hr hw, Text.dropWhile_append_of_stop hr hw]
    simpa using ⟨hl, hp⟩

end Fence

namespace Opener

/-- What every opener has that is read off a line. -/
structure WellFormed (o : Opener) : Prop where
  indent : ∀ c ∈ o.indent, isPadding c
  marker : o.fence.marker = '\x60' ∨ o.fence.marker = '~'
  length : 3 ≤ o.fence.length

theorem wellFormed_of_ofContent? {t : Text} {o : Opener} (h : ofContent? t = some o) :
    o.WellFormed := by
  rw [ofContent?] at h
  split at h
  · contradiction
  · simp only [Option.ite_none_right_eq_some, Bool.and_eq_true, Bool.or_eq_true, beq_iff_eq,
      decide_eq_true_eq, Option.some.injEq] at h
    obtain ⟨⟨⟨hm, hl⟩, -⟩, rfl⟩ := h
    exact ⟨fun c hc => List.mem_takeWhile_imp hc, hm, hl⟩

namespace WellFormed

variable {o : Opener}

theorem not_isBlank_marker (h : o.WellFormed) : isBlank o.fence.marker = false := by
  rcases h.marker with hm | hm <;> rw [hm] <;> decide

theorem not_isPadding_marker (h : o.WellFormed) : isPadding o.fence.marker = false := by
  rcases h.marker with hm | hm <;> rw [hm] <;> decide

theorem closes?_eq_some_iff (h : o.WellFormed) {t w : Text} :
    o.closes? t = some w ↔ ∃ n, o.fence.length ≤ n ∧
      t = o.indent ++ (List.replicate n o.fence.marker ++ w) ∧ ∀ c ∈ w, isPadding c := by
  simp only [closes?, Option.bind_eq_some_iff, List.isPrefixOf?_eq_some_iff_append_eq,
    Fence.closes?_eq_some_iff h.not_isPadding_marker]
  constructor
  · rintro ⟨_, rfl, n, hn, rfl, hp⟩
    exact ⟨n, hn, rfl, hp⟩
  · rintro ⟨n, hn, rfl, hp⟩
    exact ⟨_, rfl, n, hn, rfl, hp⟩

/-- What stands first in a line that closes a fence is the fence's marker. -/
theorem trimStart_of_closes? (h : o.WellFormed) {t w : Text} (hc : o.closes? t = some w) :
    List.replicate 3 o.fence.marker <+: t.trimStart := by
  obtain ⟨n, hn, rfl, -⟩ := h.closes?_eq_some_iff.1 hc
  rw [Text.trimStart_append_of_blank fun c hc => isBlank_of_isPadding (h.indent c hc)]
  obtain ⟨m, rfl⟩ := Nat.exists_eq_add_of_le (Nat.le_trans h.length hn)
  rw [← List.replicate_append_replicate, List.append_assoc, Text.trimStart]
  simp only [List.replicate, List.cons_append, List.nil_append, List.dropWhile_cons,
    h.not_isBlank_marker, Bool.false_eq_true, if_false]
  exact List.prefix_append [_, _, _] _

theorem closes?_of_isAllBlank (h : o.WellFormed) {t : Text} (ht : t.isAllBlank) :
    o.closes? t = none := by
  rw [Option.eq_none_iff_forall_ne_some]
  intro w hw
  have hp := h.trimStart_of_closes? hw
  rw [Text.trimStart_of_blank (Text.isAllBlank_iff.1 ht), List.prefix_nil] at hp
  contradiction

/-- A line that closes no fence does not come to close one by losing the space at its end. -/
theorem closes?_trimPadding (h : o.WellFormed) {t : Text} (ht : o.closes? t = none) :
    o.closes? t.trimPadding = none := by
  rw [Option.eq_none_iff_forall_ne_some] at ht ⊢
  intro w hw
  obtain ⟨n, hn, he, hp⟩ := h.closes?_eq_some_iff.1 hw
  obtain ⟨u, hu, hup⟩ := t.exists_trimPadding_append
  refine ht (w ++ u) (h.closes?_eq_some_iff.2 ⟨n, hn, ?_, ?_⟩)
  · rw [hu, he]
    simp only [List.append_assoc]
  · intro c hc
    exact (List.mem_append.1 hc).elim (hp c) (hup c)

end WellFormed

end Opener

theorem Fenced.wellFormed (f : Fenced) : f.opener.WellFormed :=
  Opener.wellFormed_of_ofContent? f.opens

namespace Layout

/-- The blocks of a layout, each with the fences that are open in its body: its own, and those
`opened` on lines of text before it. -/
def scopesFrom (opened : List Opener) : Layout → List (Fenced × List Opener)
  | [] => []
  | .line l :: ps => scopesFrom (opened ++ (Opener.ofContent? l.content).toList) ps
  | .fenced f :: ps => (f, f.opener :: opened) :: scopesFrom opened ps

def scopes (ps : Layout) : List (Fenced × List Opener) := scopesFrom [] ps

theorem map_fst_scopesFrom (ps : Layout) (opened : List Opener) :
    (scopesFrom opened ps).map Prod.fst = fences ps := by
  induction ps generalizing opened with
  | nil => rfl
  | cons p ps ih =>
    cases p with
    | line l => exact ih _
    | fenced f => rw [scopesFrom, List.map_cons, ih, fences_fenced]

theorem forall_mem_fences_iff {ps : Layout} {P : Fenced → Prop} :
    (∀ f ∈ fences ps, P f) ↔ ∀ e ∈ scopes ps, P e.1 := by
  rw [← map_fst_scopesFrom ps [], List.forall_mem_map]
  rfl

theorem wellFormed_of_mem_scopesFrom {ps : Layout} {opened : List Opener}
    (h : ∀ o ∈ opened, o.WellFormed) :
    ∀ e ∈ scopesFrom opened ps, ∀ o ∈ e.2, o.WellFormed := by
  induction ps generalizing opened with
  | nil => simp [scopesFrom]
  | cons p ps ih =>
    cases p with
    | line l =>
      refine ih fun o ho => ?_
      rcases List.mem_append.1 ho with ho | ho
      · exact h o ho
      · exact Opener.wellFormed_of_ofContent? (Option.mem_toList.1 ho)
    | fenced f =>
      rintro e he o ho
      rcases List.mem_cons.1 he with rfl | he
      · rcases List.mem_cons.1 ho with rfl | ho
        · exact f.wellFormed
        · exact h o ho
      · exact ih h e he o ho

/-- Where no line closes a fence opened before, the same holds with other bodies exactly if no
line of these closes a fence that is open there. -/
theorem proper_withBody_iff_scopesFrom (g : Fenced → List Line) {ps : Layout} (hp : Proper ps)
    {opened : List Opener} (ho : ∀ o ∈ opened, ∀ m ∈ lines ps, o.closes? m.content = none) :
    ((∀ o ∈ opened, ∀ m ∈ lines (ps.map (·.withBody g)), o.closes? m.content = none) ∧
        Proper (ps.map (·.withBody g))) ↔
      ∀ e ∈ scopesFrom opened ps, ∀ m ∈ g e.1, ∀ o ∈ e.2, o.closes? m.content = none := by
  induction ps generalizing opened with
  | nil => simp [scopesFrom, Proper]
  | cons p ps ih =>
    cases p with
    | line l =>
      obtain ⟨hl, hp⟩ := hp
      have hn : ∀ o ∈ opened ++ (Opener.ofContent? l.content).toList, ∀ m ∈ lines ps,
          o.closes? m.content = none := by
        intro o hm
        rcases List.mem_append.1 hm with hm | hm
        · intro m hm'
          exact ho o hm m (by simp [hm'])
        · exact hl o (Option.mem_toList.1 hm)
      rw [scopesFrom, ← ih hp hn]
      simp only [List.map_cons, Piece.withBody, lines_line, Proper, List.forall_mem_cons,
        List.mem_append, Option.mem_toList, or_imp, forall_and]
      have hf : ∀ o ∈ opened, o.closes? l.content = none := fun o hm => ho o hm l (by simp)
      constructor
      · rintro ⟨⟨-, hr⟩, hq, hs⟩
        exact ⟨⟨hr, hq⟩, hs⟩
      · rintro ⟨⟨hr, hq⟩, hs⟩
        exact ⟨⟨hf, hr⟩, hq, hs⟩
    | fenced f =>
      obtain ⟨hb, hp⟩ := hp
      have hn : ∀ o ∈ opened, ∀ m ∈ lines ps, o.closes? m.content = none := by
        intro o hm m hm'
        exact ho o hm m (by simp [hm'])
      have hf : ∀ o ∈ opened, o.closes? f.fence.content = none :=
        fun o hm => ho o hm f.fence (by simp)
      have hc : ∀ o ∈ opened, o.closes? f.close.content = none :=
        fun o hm => ho o hm f.close (by simp)
      rw [scopesFrom, List.forall_mem_cons, ← ih hp hn]
      simp only [List.map_cons, Piece.withBody, lines_fenced, Proper, List.mem_append,
        List.mem_cons, or_imp, forall_and, forall_eq]
      constructor
      · rintro ⟨⟨-, hg, -, hr⟩, ho, hq⟩
        exact ⟨⟨ho, fun m hm o hm' => hg o hm' m hm⟩, hr, hq⟩
      · rintro ⟨⟨ho, hg⟩, hr, hq⟩
        exact ⟨⟨hf, fun o hm m hm' => hg m hm' o hm, hc, hr⟩, ho, hq⟩

theorem proper_withBody_iff (g : Fenced → List Line) {ps : Layout} (hp : Proper ps) :
    Proper (ps.map (·.withBody g)) ↔
      ∀ e ∈ scopes ps, ∀ m ∈ g e.1, ∀ o ∈ e.2, o.closes? m.content = none := by
  rw [scopes, ← proper_withBody_iff_scopesFrom g hp (by simp)]
  simp

/-- In a proper layout no line of a body closes a fence that is open there. -/
theorem Proper.closes?_of_mem_scopes {ps : Layout} (hp : Proper ps) :
    ∀ e ∈ scopes ps, ∀ m ∈ e.1.body, ∀ o ∈ e.2, o.closes? m.content = none := by
  rw [← proper_withBody_iff Fenced.body hp]
  have hm : ps.map (·.withBody Fenced.body) = ps := by
    rw [List.map_congr_left (g := id), List.map_id]
    intro p _
    cases p <;> rfl
  rwa [hm]

theorem close_mem_lines {ps : Layout} {f : Fenced} (h : f ∈ fences ps) : f.close ∈ lines ps := by
  induction ps with
  | nil => contradiction
  | cons p ps ih =>
    cases p with
    | line l =>
      rw [lines_line]
      exact List.mem_cons_of_mem l (ih h)
    | fenced g =>
      rw [lines_fenced]
      rcases List.mem_cons.1 h with rfl | h
      · simp
      · have hm := ih h
        simp [hm]

/-- If the layout of a document with new bodies has the openers and bodies that it should have,
then it is the old one with these bodies. -/
theorem proper_withBody_of_fences {g : Fenced → List Line} {ps qs : Layout} (hp : Proper ps)
    (hq : Proper qs) (hl : lines qs = lines (ps.map (·.withBody g)))
    (hf : ((fences qs).map fun f => (f.opener, f.body)) =
      (fences ps).map fun f => (f.opener, g f)) : Proper (ps.map (·.withBody g)) := by
  induction ps generalizing qs with
  | nil => trivial
  | cons p ps ih =>
    cases p with
    | line l =>
      rw [List.map_cons, Piece.withBody, lines_line] at hl
      cases qs with
      | nil => contradiction
      | cons q qs =>
        cases q with
        | line m =>
          rw [lines_line, List.cons.injEq] at hl
          obtain ⟨rfl, hl⟩ := hl
          exact ⟨hl ▸ hq.1, ih hp.2 hq.2 hl hf⟩
        | fenced f =>
          -- This fence would be closed by the end of the next block, whose opener is the same.
          rw [lines_fenced, List.cons.injEq] at hl
          have hn : fences ps ≠ [] := by
            intro hn
            rw [fences_line, hn] at hf
            contradiction
          obtain ⟨f', fs, hfs⟩ := List.exists_cons_of_ne_nil hn
          rw [fences_line, hfs, fences_fenced, List.map_cons, List.map_cons, List.cons.injEq,
            Prod.mk.injEq] at hf
          have hm : f'.close ∈ lines ps := close_mem_lines (hfs ▸ List.mem_cons_self)
          have hc := hp.1 f.opener (hl.1 ▸ f.opens) f'.close hm
          rw [hf.1.1, f'.closes] at hc
          contradiction
    | fenced f =>
      rw [List.map_cons, Piece.withBody, lines_fenced] at hl
      cases qs with
      | nil => contradiction
      | cons q qs =>
        cases q with
        | line m =>
          rw [lines_line, List.cons.injEq] at hl
          have hc := hq.1 f.opener (hl.1 ▸ f.opens) f.close (by rw [hl.2]; simp)
          rw [f.closes] at hc
          contradiction
        | fenced f' =>
          rw [lines_fenced, List.cons.injEq] at hl
          rw [fences_fenced, fences_fenced, List.map_cons, List.map_cons, List.cons.injEq,
            Prod.mk.injEq] at hf
          obtain ⟨⟨ho, hb⟩, hf⟩ := hf
          rw [hb, List.append_cancel_left_eq, List.cons.injEq] at hl
          have hq₁ := hq.1
          rw [ho, hb] at hq₁
          exact ⟨hq₁, ih hp.2 hq.2 hl.2.2 hf⟩

theorem fences_withBody (g : Fenced → List Line) (ps : Layout) :
    fences (ps.map (·.withBody g)) = (fences ps).map fun f => { f with body := g f } := by
  induction ps with
  | nil => rfl
  | cons p ps ih =>
    cases p with
    | line l => exact ih
    | fenced f =>
      rw [List.map_cons, Piece.withBody, fences_fenced, ih, fences_fenced, List.map_cons]

/-- New bodies of the same lengths leave the lines as they are exactly if they are the old ones. -/
theorem lines_withBody_eq_iff {g : Fenced → List Line} {ps : Layout}
    (h : ∀ f ∈ fences ps, (g f).length = f.body.length) :
    lines (ps.map (·.withBody g)) = lines ps ↔ ∀ f ∈ fences ps, g f = f.body := by
  induction ps with
  | nil => simp
  | cons p ps ih =>
    cases p with
    | line l =>
      rw [List.map_cons, Piece.withBody, lines_line, lines_line, fences_line, ← ih h]
      simp
    | fenced f =>
      obtain ⟨hf, h⟩ := List.forall_mem_cons.1 h
      rw [List.map_cons, Piece.withBody, lines_fenced, lines_fenced, fences_fenced,
        List.forall_mem_cons, ← ih h]
      constructor
      · intro he
        obtain ⟨hb, hr⟩ := List.append_inj (List.cons.inj he).2 hf
        exact ⟨hb, (List.cons.inj hr).2⟩
      · rintro ⟨hb, hr⟩
        rw [hr]
        simp only [hb]

end Layout

/-- Whether one of the blocks reaches over the line of an index, its fences included. -/
def isCovered (bs : List Block) (i : Nat) : Bool :=
  bs.any fun b => decide (b.fenceLine ≤ i) && decide (i ≤ b.endLine)

/-- The openers on the lines that lie outside of the blocks. -/
def strayOpeners (bs : List Block) (ls : List Line) : List Opener :=
  ls.zipIdx.filterMap fun (l, i) =>
    if isCovered bs i then none else Opener.ofContent? l.content

/-- The fences that are open in the body of a block: its own, and those that are opened before it
and never closed. -/
def Text.openFences (t : Text) (b : Block) : List Opener :=
  b.opener :: strayOpeners t.blocks (t.splitLines.take b.fenceLine)

theorem strayOpeners_append_singleton (bs : List Block) (ls : List Line) (l : Line) :
    strayOpeners bs (ls ++ [l]) = strayOpeners bs ls ++
      if isCovered bs ls.length then [] else (Opener.ofContent? l.content).toList := by
  rw [strayOpeners, List.zipIdx_append, List.filterMap_append, strayOpeners]
  congr 1
  simp only [List.zipIdx_singleton, Nat.zero_add, List.filterMap_cons, List.filterMap_nil]
  by_cases hc : isCovered bs ls.length
  · simp [hc]
  · simp only [hc, Bool.false_eq_true, if_false]
    cases Opener.ofContent? l.content <;> rfl

/-- Lines within a block open no fence. -/
theorem strayOpeners_append_of_covered {bs : List Block} {ls ms : List Line}
    (h : ∀ i, ls.length ≤ i → i < ls.length + ms.length → isCovered bs i) :
    strayOpeners bs (ls ++ ms) = strayOpeners bs ls := by
  induction ms generalizing ls with
  | nil => rw [List.append_nil]
  | cons m ms ih =>
    have hl : (ls ++ [m]).length = ls.length + 1 := by simp
    rw [List.length_cons] at h
    have hs := strayOpeners_append_singleton bs ls m
    rw [if_pos (h ls.length (Nat.le_refl _) (by omega)), List.append_nil] at hs
    rw [List.append_cons, ih fun i hi hm => h i (by omega) (by omega), hs]

namespace Layout

theorem isCovered_blocksFrom_of_lt {ps : Layout} {i j : Nat} (h : i < j) :
    isCovered (blocksFrom j ps) i = false := by
  rw [isCovered, List.any_eq_false]
  intro b hb
  have hf := (fenceLine_of_mem_blocksFrom hb).1
  simp only [Bool.and_eq_true, decide_eq_true_eq]
  omega

/-- What a block of a document has of the piece it stands for, with the fences open there. The
blocks `bs` are those of the whole document, of which the layout is the rest. -/
theorem map_blocksFrom_scopesFrom {α : Type} (Φ : Opener → List Line → List Opener → α)
    (ps : Layout) (before : List Line) (bs : List Block)
    (hb : ∀ i, before.length ≤ i → isCovered bs i = isCovered (blocksFrom before.length ps) i) :
    (blocksFrom before.length ps).map (fun b => Φ b.opener (b.body (before ++ lines ps))
        (b.opener :: strayOpeners bs ((before ++ lines ps).take b.fenceLine))) =
      (scopesFrom (strayOpeners bs before) ps).map fun e => Φ e.1.opener e.1.body e.2 := by
  induction ps generalizing before with
  | nil => rfl
  | cons p ps ih =>
    cases p with
    | line l =>
      have hl : (before ++ [l]).length = before.length + 1 := by simp
      have hc : isCovered bs before.length = false := by
        rw [hb _ (Nat.le_refl _), blocksFrom]
        exact isCovered_blocksFrom_of_lt (Nat.lt_succ_self _)
      have hi := ih (before ++ [l]) fun i h => by
        rw [hl] at h ⊢
        exact hb i (by omega)
      rw [hl, strayOpeners_append_singleton, hc, List.append_assoc] at hi
      exact hi
    | fenced f =>
      have hl := length_append_fenced before f
      have hc : ∀ i, before.length ≤ i →
          i < before.length + (f.fence :: (f.body ++ [f.close])).length → isCovered bs i := by
        intro i hi hm
        rw [hb i hi, blocksFrom, isCovered, List.any_cons]
        simp only [List.length_cons, List.length_append, List.length_nil] at hm
        simp only [Bool.or_eq_true, Bool.and_eq_true, decide_eq_true_eq]
        omega
      have hi := ih (before ++ f.fence :: (f.body ++ [f.close])) fun i h => by
        rw [hl] at h ⊢
        rw [hb i (by omega), blocksFrom, isCovered, List.any_cons]
        have he : ¬ i ≤ before.length + 1 + f.body.length := by omega
        simp [he, isCovered]
      rw [hl, append_lines_fenced, strayOpeners_append_of_covered hc] at hi
      rw [blocksFrom, scopesFrom, List.map_cons, List.map_cons, hi, lines_fenced]
      congr 2
      · simp [Block.body, Block.startLine, Block.bodyLength, ← List.drop_drop]
      · rw [List.take_left]

/-- A property of a block's opener, body and open fences holds throughout a document if it holds
throughout its layout. -/
theorem Proper.forall_blocks_iff {ps : Layout} (hp : Proper ps) {text : Text}
    (hl : lines ps = text.splitLines) (P : Opener → List Line → List Opener → Prop) :
    (∀ b ∈ text.blocks, P b.opener (b.body text.splitLines) (text.openFences b)) ↔
      ∀ e ∈ scopes ps, P e.1.opener e.1.body e.2 := by
  have hb : blocksFrom 0 ps = text.blocks := hp.blocks_eq hl
  have hm := map_blocksFrom_scopesFrom P ps [] text.blocks fun i _ => by
    rw [List.length_nil, hb]
  simp only [List.nil_append, List.length_nil, hl, hb] at hm
  have ha := iff_of_eq (congrArg (fun qs : List Prop => ∀ p ∈ qs, id p) hm)
  simp only [List.forall_mem_map, id] at ha
  exact ha

end Layout

end FencedCode
