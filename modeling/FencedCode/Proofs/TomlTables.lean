import FencedCode.Proofs.TomlValues

/-! Tables as they are written. A table of plain values is written as a document, one line for each
key, and that document is read back as the table, with its keys in their order. -/
namespace FencedCode.Toml

/-- Tables that can be written as documents: no key needs quotes or stands twice, and the values are
plain. -/
structure PlainTable (table : Table) : Prop where
  bare : ∀ e ∈ table, isBareKey e.1
  plain : ∀ e ∈ table, Plain maxDepth e.2
  distinct : (table.map Prod.fst).Nodup

section Keys

variable {k r : Text}

theorem isBareKey_iff : isBareKey k ↔ k ≠ [] ∧ ∀ c ∈ k, isKeyChar c := by
  simp [isBareKey, isKeyChar]

theorem ne_of_isKeyChar {c d : Char} (h : isKeyChar c) (hd : isKeyChar d = false) : c ≠ d := by
  rintro rfl
  rw [hd] at h
  contradiction

theorem starts_bare (h : isBareKey k) : Starts k := by
  obtain ⟨hn, hk⟩ := isBareKey_iff.1 h
  cases k with
  | nil => contradiction
  | cons c k =>
    have hc := hk c List.mem_cons_self
    have hb : isBlankChar c = false := by
      have hs := ne_of_isKeyChar hc (by decide : isKeyChar ' ' = false)
      have ht := ne_of_isKeyChar hc (by decide : isKeyChar '\t' = false)
      simp [isBlankChar, hs, ht]
    exact ⟨c, k, rfl, hb, ne_of_isKeyChar hc (by decide), ne_of_isKeyChar hc (by decide),
      ne_of_isKeyChar hc (by decide), ne_of_isKeyChar hc (by decide)⟩

theorem simpleKey_bare (h : isBareKey k) (hr : ∀ c ∈ r.head?, isKeyChar c = false) :
    simpleKey (k ++ r) = .ok (k, r) := by
  obtain ⟨hn, hk⟩ := isBareKey_iff.1 h
  have ht := Text.takeWhile_append_of_stop hk hr
  have hd := Text.dropWhile_append_of_stop hk hr
  cases k with
  | nil => contradiction
  | cons c k =>
    have hc := hk c List.mem_cons_self
    have hq := ne_of_isKeyChar hc (by decide : isKeyChar '"' = false)
    have ha := ne_of_isKeyChar hc (by decide : isKeyChar '\'' = false)
    rw [List.cons_append] at ht hd ⊢
    simp [simpleKey, hq, ha, ht, hd]

theorem keyPath_bare (h : isBareKey k) (r : Text) :
    keyPath (k ++ ' ' :: '=' :: r) = .ok (⟨[], k⟩, '=' :: r) := by
  have key : simpleKey (k ++ ' ' :: '=' :: r) = .ok (k, ' ' :: '=' :: r) :=
    simpleKey_bare h (by simp [isKeyChar])
  have blank : skipBlanks (' ' :: '=' :: r) = '=' :: r := rfl
  have parts : keyParts (k ++ ' ' :: '=' :: r) = .ok ([k], '=' :: r) := by
    rw [keyParts, ((starts_bare h).append _).skipBlanks, key]
    simp only [blank]
    rfl
  rw [keyPath, parts]
  rfl

end Keys

/-- A key with the text of its value. -/
def line (k w : Text) : Text := k ++ [' ', '=', ' '] ++ w

section Statements

variable {depth : Nat} {k w : Text} {v : Value}

theorem pair_line (hk : isBareKey k) (hw : Written depth w v) (r : Text) :
    pair (value depth) (line k w ++ '\n' :: r) = .ok (⟨⟨[], k⟩, v⟩, '\n' :: r) := by
  have he : line k w ++ '\n' :: r = k ++ ' ' :: '=' :: ' ' :: (w ++ '\n' :: r) := by simp [line]
  have blank : skipBlanks (' ' :: (w ++ '\n' :: r)) = w ++ '\n' :: r :=
    (hw.1.append ('\n' :: r)).skipBlanks
  have read := hw.2 (.inr (.inr rfl)) r
  rw [← blank] at read
  rw [he, pair, keyPath_bare hk]
  change value depth (skipBlanks _) >>= _ = _
  rw [read]
  rfl

theorem head_line (hk : isBareKey k) (r : Text) : ∃ c u, line k w ++ r = c :: u ∧ isKeyChar c := by
  obtain ⟨hn, hk⟩ := isBareKey_iff.1 hk
  cases k with
  | nil => contradiction
  | cons c k => exact ⟨c, _, rfl, hk c List.mem_cons_self⟩

theorem statement_line (hk : isBareKey k) (hw : Written depth w v) (r : Text) :
    statement (value depth) (line k w ++ '\n' :: r) = .ok (some (.pair ⟨⟨[], k⟩, v⟩), r) := by
  have hs : Starts (line k w ++ '\n' :: r) :=
    (((starts_bare hk).append _).append w).append ('\n' :: r)
  have blank := hs.skipBlanks
  have hp := pair_line hk hw r
  obtain ⟨c, u, he, hc⟩ := head_line (w := w) hk ('\n' :: r)
  rw [he] at hp blank ⊢
  have hv : ¬ (c = '#' ∨ c = '\n' ∨ c = '\r') := by
    rintro (rfl | rfl | rfl) <;> contradiction
  have hb : c ≠ '[' := ne_of_isKeyChar hc (by decide)
  rw [statement, blank]
  simp only [if_neg hv, if_neg hb, hp]
  rfl

theorem statements_line (hk : isBareKey k) (hw : Written depth w v) {r : Text}
    {ss : List Statement} (hr : statements (value depth) r = .ok ss) :
    statements (value depth) (line k w ++ '\n' :: r) = .ok (.pair ⟨⟨[], k⟩, v⟩ :: ss) := by
  have hs := statement_line hk hw r
  have hl : r.length < (line k w ++ '\n' :: r).length := by
    rw [List.length_append, List.length_cons]
    omega
  obtain ⟨c, u, he, -⟩ := head_line (w := w) hk ('\n' :: r)
  rw [he] at hs hl ⊢
  rw [statements, hs]
  simp only [dif_pos hl, hr]
  rfl

/-- The lines of a table. -/
def IsLine (depth : Nat) (l : Text) (e : Text × Value) : Prop :=
  isBareKey e.1 ∧ ∃ w, l = line e.1 w ∧ Written depth w e.2

/-- The entry of a table as a statement. -/
def entryPair (e : Text × Value) : Pair := ⟨⟨[], e.1⟩, e.2⟩

theorem statements_lines {ls : List Text} {table : Table}
    (h : List.Forall₂ (IsLine depth) ls table) :
    statements (value depth) (ls.flatMap (· ++ ['\n'])) =
      .ok (table.map (.pair ∘ entryPair)) := by
  induction h with
  | nil => exact statements.eq_def _ _
  | @cons l e ls table hl _ ih =>
    obtain ⟨hk, w, rfl, hw⟩ := hl
    rw [List.flatMap_cons, List.append_assoc]
    exact statements_line hk hw ih

theorem dropMark_lines {ls : List Text} {table : Table} (h : List.Forall₂ (IsLine depth) ls table) :
    dropMark (ls.flatMap (· ++ ['\n'])) = ls.flatMap (· ++ ['\n']) := by
  cases h with
  | nil => rfl
  | cons hl _ =>
    obtain ⟨hk, w, rfl, -⟩ := hl
    rw [List.flatMap_cons, List.append_assoc]
    obtain ⟨c, u, he, hc⟩ := head_line hk _
    rw [he, dropMark]
    rintro r ⟨⟩
    contradiction

end Statements

theorem sections_pairs (ps : List Pair) : sections (ps.map .pair) = (ps, []) := by
  induction ps with
  | nil => rfl
  | cons p ps ih => rw [List.map_cons, sections, ih]

theorem set_of_not_mem {es : Entries} {k : Text} (h : k ∉ es.map Prod.fst) (i : Item) :
    es.set k i = es ++ [(k, i)] := by
  induction es with
  | nil => rfl
  | cons e es ih =>
    obtain ⟨k', i'⟩ := e
    rw [List.map_cons, List.mem_cons, not_or] at h
    rw [Entries.set, if_neg (Ne.symm h.1), ih h.2]
    rfl

theorem finishEntries_values (table : Table) :
    finishEntries (table.map fun e => (e.1, .value e.2)) = table := by
  induction table with
  | nil => rfl
  | cons e table ih => rw [List.map_cons, finishEntries, ih, Item.finish]

theorem addPair_new {es : Entries} {e : Text × Value} (h : e.1 ∉ es.map Prod.fst) :
    addPair es (entryPair e) = .ok (es ++ [(e.1, .value e.2)]) := by
  have hl : es.lookup e.1 = none := by
    rw [List.lookup_eq_none_iff]
    intro p hp
    rw [bne_iff_ne]
    intro he
    exact h (he ▸ List.mem_map_of_mem hp)
  rw [addPair, entryPair, within]
  simp only [hl, set_of_not_mem h]
  rfl

/-- Keys that are new and distinct are added in their order. -/
theorem addPairs_new {es : Entries} {table : Table}
    (h : (es.map Prod.fst ++ table.map Prod.fst).Nodup) :
    addPairs es (table.map entryPair) = .ok (es ++ table.map fun e => (e.1, .value e.2)) := by
  induction table generalizing es with
  | nil =>
    rw [List.map_nil, List.map_nil, List.append_nil]
    rfl
  | cons e table ih =>
    have hn : e.1 ∉ es.map Prod.fst := fun hm =>
      (List.nodup_append.1 h).2.2 _ hm _ List.mem_cons_self rfl
    have hd : ((es ++ [(e.1, Item.value e.2)]).map Prod.fst ++ table.map Prod.fst).Nodup := by
      simpa using h
    rw [List.map_cons, addPairs, List.foldlM_cons, addPair_new hn]
    exact (ih hd).trans (by simp)

theorem exists_writeEntries {depth : Nat} {table : Table} (hb : ∀ e ∈ table, isBareKey e.1)
    (hp : ∀ e ∈ table, Plain depth e.2) :
    ∃ ls, writeEntries table = .ok ls ∧ List.Forall₂ (IsLine depth) ls table := by
  induction table with
  | nil => exact ⟨[], rfl, .nil⟩
  | cons e table ih =>
    obtain ⟨hk, hks⟩ := List.forall_mem_cons.1 hb
    obtain ⟨hv, hvs⟩ := List.forall_mem_cons.1 hp
    obtain ⟨w, hw, hr⟩ := hv.exists_written
    obtain ⟨ls, hl, hrs⟩ := ih hks hvs
    refine ⟨line e.1 w :: ls, ?_, .cons ⟨hk, w, rfl, hr⟩ hrs⟩
    rw [writeEntries, hw, hl, writeKey, if_pos hk]
    rfl

/-- A plain table is read back from the document that it is written as. -/
theorem PlainTable.parse_write {table : Table} (h : PlainTable table) :
    ∃ t, write table = .ok t ∧ parse t = .ok table := by
  obtain ⟨ls, hw, hl⟩ := exists_writeEntries h.bare h.plain
  refine ⟨ls.flatMap (· ++ ['\n']), by rw [write, hw]; rfl, ?_⟩
  have hs := statements_lines hl
  have ha : addPairs [] (table.map entryPair) = _ := addPairs_new (by simpa using h.distinct)
  rw [← List.map_map] at hs
  rw [parse, dropMark_lines hl, hs]
  change (do
    let root ← (sections ((table.map entryPair).map .pair)).2.foldlM
      (fun root (h, ps) => addTable root h ps)
      (← addPairs [] (sections ((table.map entryPair).map .pair)).1)
    .ok (finishEntries root)) = _
  rw [sections_pairs, ha]
  exact congrArg _ (finishEntries_values table)

end FencedCode.Toml
