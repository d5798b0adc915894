import FencedCode.Document.Basic
import FencedCode.Proofs.Lines
import FencedCode.Proofs.Scan

/-! Documents cut into pieces: lines of text, and fenced blocks with what is in them. A document
has one layout that the scan agrees with, and formatting replaces the bodies in it. -/
namespace FencedCode

/-- A block with its lines. The line before the body opens a fence that the line after it closes. -/
structure Fenced where
  opener : Opener
  trailing : Text
  fence : Line
  body : List Line
  close : Line
  opens : Opener.ofContent? fence.content = some opener
  closes : opener.closes? close.content = some trailing

inductive Piece
  | line (l : Line)
  | fenced (f : Fenced)

namespace Piece

def lines : Piece → List Line
  | .line l => [l]
  | .fenced f => f.fence :: (f.body ++ [f.close])

def fenced? : Piece → Option Fenced
  | .line _ => none
  | .fenced f => some f

/-- The piece with another body. -/
def withBody (g : Fenced → List Line) : Piece → Piece
  | .line l => .line l
  | .fenced f => .fenced { f with body := g f }

end Piece

abbrev Layout := List Piece

namespace Layout

def lines (ps : Layout) : List Line := ps.flatMap Piece.lines

def fences (ps : Layout) : List Fenced := ps.filterMap Piece.fenced?

/-- The blocks of a layout whose first line has index `i`. -/
def blocksFrom (i : Nat) : Layout → List Block
  | [] => []
  | .line _ :: ps => blocksFrom (i + 1) ps
  | .fenced f :: ps =>
    ⟨i, i + 1 + f.body.length, f.opener, f.trailing⟩ :: blocksFrom (i + 2 + f.body.length) ps

def blocks (ps : Layout) : List Block := blocksFrom 0 ps

/-- No line of a body closes the fence before it, and a line of text that opens a fence stands
before lines that do not close it. -/
def Proper : Layout → Prop
  | [] => True
  | .line l :: ps =>
    (∀ o, Opener.ofContent? l.content = some o → ∀ m ∈ lines ps, o.closes? m.content = none) ∧
      Proper ps
  | .fenced f :: ps => (∀ m ∈ f.body, f.opener.closes? m.content = none) ∧ Proper ps

/-- The text of the layout with other texts for its bodies, in order. Bodies beyond the given ones
are left as they are. -/
def render : Layout → List Text → Text
  | [], _ => []
  | .line l :: ps, ts => l.text ++ render ps ts
  | .fenced f :: ps, [] =>
    f.fence.text ++ joinLines f.body ++ f.close.text ++ render ps []
  | .fenced f :: ps, t :: ts => f.fence.text ++ t ++ f.close.text ++ render ps ts

@[simp] theorem lines_nil : lines [] = [] := rfl

@[simp] theorem lines_line (l : Line) (ps : Layout) : lines (.line l :: ps) = l :: lines ps := by
  simp [lines, Piece.lines]

@[simp] theorem lines_fenced (f : Fenced) (ps : Layout) :
    lines (.fenced f :: ps) = f.fence :: (f.body ++ f.close :: lines ps) := by
  simp [lines, Piece.lines]

@[simp] theorem fences_nil : fences [] = [] := rfl

@[simp] theorem fences_line (l : Line) (ps : Layout) : fences (.line l :: ps) = fences ps := rfl

@[simp] theorem fences_fenced (f : Fenced) (ps : Layout) :
    fences (.fenced f :: ps) = f :: fences ps := rfl

/-- Every document has a layout. -/
theorem exists_proper (ls : List Line) : ∃ ps : Layout, lines ps = ls ∧ Proper ps := by
  induction hn : ls.length using Nat.strongRecOn generalizing ls with
  | ind n ih =>
    cases ls with
    | nil => exact ⟨[], rfl, trivial⟩
    | cons l ls =>
      rw [List.length_cons] at hn
      obtain ⟨ps, hl, hp⟩ := ih ls.length (by omega) ls rfl
      cases ho : Opener.ofContent? l.content with
      | none =>
        refine ⟨.line l :: ps, by simp [hl], ?_, hp⟩
        simp [ho]
      | some o =>
        cases hc : o.findClose? ls with
        | none =>
          refine ⟨.line l :: ps, by simp [hl], ?_, hp⟩
          rintro p hp m hm
          obtain rfl : o = p := Option.some.inj (ho.symm.trans hp)
          exact Opener.findClose?_eq_none_iff.1 hc m (hl ▸ hm)
        | some r =>
          obtain ⟨body, close, rest, rfl, -, hb, hw⟩ := Opener.findClose?_eq_some_iff.1 hc
          rw [List.length_append, List.length_cons] at hn
          obtain ⟨qs, hl, hq⟩ := ih rest.length (by omega) rest rfl
          exact ⟨.fenced ⟨o, r.2, l, body, close, ho, hw⟩ :: qs, by simp [hl], hb, hq⟩

theorem fenceLine_of_mem_blocksFrom {ps : Layout} {i : Nat} {b : Block}
    (h : b ∈ blocksFrom i ps) : i ≤ b.fenceLine ∧ b.startLine ≤ b.endLine ∧
      b.endLine < i + (lines ps).length := by
  induction ps generalizing i with
  | nil => simp [blocksFrom] at h
  | cons p ps ih =>
    cases p with
    | line l =>
      have hb := ih h
      simp only [lines_line, List.length_cons]
      omega
    | fenced f =>
      simp only [lines_fenced, List.length_cons, List.length_append]
      rcases List.mem_cons.1 h with rfl | h
      · simp only [Block.startLine]
        omega
      · have hb := ih h
        omega

/-- The blocks of a layout are disjoint and in order. -/
theorem pairwise_blocksFrom (ps : Layout) (i : Nat) :
    (blocksFrom i ps).Pairwise fun b c => b.endLine < c.fenceLine := by
  induction ps generalizing i with
  | nil => exact .nil
  | cons p ps ih =>
    cases p with
    | line l => exact ih (i + 1)
    | fenced f =>
      refine .cons (fun c hc => ?_) (ih _)
      have hf := (fenceLine_of_mem_blocksFrom hc).1
      simp only
      omega

/-- The scan finds the blocks of a layout exactly if the layout is proper. -/
theorem plainScanFrom_lines_iff (ps : Layout) (i : Nat) :
    plainScanFrom i (lines ps) = blocksFrom i ps ↔ Proper ps := by
  induction ps generalizing i with
  | nil => simp [plainScanFrom, blocksFrom, Proper]
  | cons p ps ih =>
    cases p with
    | line l =>
      rw [lines_line, plainScanFrom_cons, blocksFrom, Proper]
      cases ho : Opener.ofContent? l.content with
      | none =>
        simp only [reduceCtorEq, false_implies, implies_true, true_and]
        exact ih (i + 1)
      | some o =>
        have hs : (∀ p, some o = some p → ∀ m ∈ lines ps, p.closes? m.content = none) ↔
            o.findClose? (lines ps) = none := by
          rw [Opener.findClose?_eq_none_iff]
          constructor
          · intro h
            exact h o rfl
          · rintro h p ⟨⟩
            exact h
        rw [hs]
        cases hc : o.findClose? (lines ps) with
        | none =>
          simp only [hc, true_and]
          exact ih (i + 1)
        | some r =>
          simp only [hc, reduceCtorEq, false_and, iff_false]
          -- A block that starts on this line is none of the layout's, which start later.
          intro h
          have hm := (fenceLine_of_mem_blocksFrom (h ▸ List.mem_cons_self)).1
          simp only at hm
          omega
    | fenced f =>
      rw [lines_fenced, plainScanFrom_cons, f.opens, blocksFrom, Proper]
      have hd : (f.body ++ f.close :: lines ps).drop (f.body.length + 1) = lines ps := by simp
      constructor
      · intro h
        cases hc : f.opener.findClose? (f.body ++ f.close :: lines ps) with
        | none =>
          have hf := Opener.findClose?_eq_none_iff.1 hc f.close (by simp)
          rw [f.closes] at hf
          contradiction
        | some r =>
          obtain ⟨body, close, rest, he, hn, hb, -⟩ := Opener.findClose?_eq_some_iff.1 hc
          simp only [hc, List.cons.injEq, Block.mk.injEq, true_and] at h
          have hl : r.1 = f.body.length := by omega
          have hp : plainScanFrom (i + 2 + f.body.length) (lines ps) =
              blocksFrom (i + 2 + f.body.length) ps := by
            rw [← h.2, hl, hd]
          rw [(List.append_inj he (hl ▸ hn).symm).1]
          exact ⟨hb, (ih _).1 hp⟩
      · rintro ⟨hb, hp⟩
        have hc := Opener.findClose?_eq_some_iff.2
          ⟨f.body, f.close, lines ps, rfl, rfl, hb, f.closes⟩
        simp only [hc, hd, List.cons.injEq, true_and]
        exact (ih _).2 hp

theorem scanBlocks_lines_iff (ps : Layout) : scanBlocks (lines ps) = blocks ps ↔ Proper ps := by
  rw [scanBlocks, scan, filterMap_scanFrom [] 0 _ (Unclosed.sound_nil _)]
  exact plainScanFrom_lines_iff ps 0

theorem Proper.blocks_eq {ps : Layout} (hp : Proper ps) {text : Text}
    (hl : lines ps = text.splitLines) : blocks ps = text.blocks := by
  rw [Text.blocks, ← hl, (scanBlocks_lines_iff ps).2 hp]

/-- The lines of a block moved from the layout to the lines `before` it. -/
theorem append_lines_fenced (before : List Line) (f : Fenced) (ps : Layout) :
    before ++ f.fence :: (f.body ++ [f.close]) ++ lines ps = before ++ lines (.fenced f :: ps) := by
  simp

theorem length_append_fenced (before : List Line) (f : Fenced) :
    (before ++ f.fence :: (f.body ++ [f.close])).length = before.length + 2 + f.body.length := by
  simp only [List.length_append, List.length_cons, List.length_nil]
  omega

/-- What a block of a layout has of the piece it stands for. -/
theorem map_blocksFrom {α : Type} (Φ : Opener → Text → List Line → α) (ps : Layout)
    (before : List Line) :
    (blocksFrom before.length ps).map
        (fun b => Φ b.opener b.trailing (b.body (before ++ lines ps))) =
      (fences ps).map fun f => Φ f.opener f.trailing f.body := by
  induction ps generalizing before with
  | nil => rfl
  | cons p ps ih =>
    cases p with
    | line l =>
      have hi := ih (before ++ [l])
      simp only [List.length_append, List.length_cons, List.length_nil, List.append_assoc,
        List.singleton_append] at hi
      rw [blocksFrom, lines_line, fences_line, ← hi]
    | fenced f =>
      have hi := ih (before ++ f.fence :: (f.body ++ [f.close]))
      rw [length_append_fenced, append_lines_fenced] at hi
      rw [blocksFrom, fences_fenced, List.map_cons, List.map_cons, hi]
      congr 2
      simp [Block.body, Block.startLine, Block.bodyLength, ← List.drop_drop]

end Layout

/-- An outcome that lies further on leaves a line as it is. -/
theorem assemble_line {i : Nat} (l : Line) (ls : List Line) {os : List Outcome}
    (h : ∀ o ∈ os.head?, i < o.block.startLine ∧ i < o.block.endLine) :
    assemble i (l :: ls) os = l.text ++ assemble (i + 1) ls os := by
  cases os with
  | nil => simp [assemble]
  | cons o os =>
    obtain ⟨hs, he⟩ := h o rfl
    have hs' : o.block.startLine - i = o.block.startLine - (i + 1) + 1 := by omega
    have he' : o.block.endLine - i = o.block.endLine - (i + 1) + 1 := by omega
    rw [assemble, assemble, hs', he']
    simp

namespace Layout

theorem head?_of_map_block {ps : Layout} {i j : Nat} {os : List Outcome}
    (h : os.map Outcome.block = blocksFrom j ps) (hi : i < j) :
    ∀ o ∈ os.head?, i < o.block.startLine ∧ i < o.block.endLine := by
  intro o ho
  have hm : o.block ∈ blocksFrom j ps := by
    rw [← h]
    exact List.mem_map_of_mem (List.mem_of_mem_head? ho)
  have hb := fenceLine_of_mem_blocksFrom hm
  simp only [Block.startLine] at hb ⊢
  omega

/-- Putting new bodies into a document is putting them into its layout. -/
theorem assemble_lines {ps : Layout} {i : Nat} {os : List Outcome}
    (h : os.map Outcome.block = blocksFrom i ps) :
    assemble i (lines ps) os = render ps (os.map Outcome.body) := by
  induction ps generalizing i os with
  | nil =>
    obtain rfl : os = [] := by simpa [blocksFrom] using h
    rfl
  | cons p ps ih =>
    cases p with
    | line l =>
      rw [blocksFrom] at h
      rw [lines_line, render, assemble_line l _ (head?_of_map_block h (Nat.lt_succ_self i)), ih h]
    | fenced f =>
      cases os with
      | nil => simp [blocksFrom] at h
      | cons o os =>
        rw [blocksFrom, List.map_cons, List.cons.injEq] at h
        obtain ⟨ho, h⟩ := h
        have hs : o.block.startLine - i = 1 := by
          simp only [ho, Block.startLine]
          omega
        have he : o.block.endLine - i = f.body.length + 1 := by
          simp only [ho]
          omega
        have hn : o.block.endLine + 1 = i + 2 + f.body.length := by
          simp only [ho]
          omega
        have hh := head?_of_map_block (i := o.block.endLine) h (by omega)
        have hd : (f.fence :: (f.body ++ f.close :: lines ps)).drop (f.body.length + 1) =
            f.close :: lines ps := by simp
        rw [lines_fenced, assemble, hs, he, hd, assemble_line _ _ hh, hn, ih h]
        simp [render]

end Layout

end FencedCode
