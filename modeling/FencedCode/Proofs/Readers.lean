import FencedCode.Proofs.Results
import FencedCode.Proofs.SettingsFiles

/-! The two readers of settings. The lenient one reads of a table what the strict one reads of those
entries that have a key of settings, and puts it over the defaults. -/
namespace FencedCode

namespace Settings

def isKey (k : Text) : Bool := keys.any (·.toList == k)

theorem isKey_iff {k : Text} : isKey k ↔ ∃ key ∈ keys, k = key.toList := by
  rw [isKey, List.any_eq_true]
  exact exists_congr fun key => and_congr_right fun _ => beq_iff_eq.trans eq_comm

theorem not_isKey_iff {k : Text} : isKey k = false ↔ ∀ key ∈ keys, k ≠ key.toList := by
  rw [← Bool.not_eq_true, isKey_iff]
  push Not
  rfl

/-- The entries of a table that have a key of settings. -/
def knownPart (table : Toml.Table) : Toml.Table := table.filter (isKey ·.1)

theorem lookup_knownPart {k : Text} (hk : isKey k) (table : Toml.Table) :
    (knownPart table).lookup k = table.lookup k := by
  induction table with
  | nil => rfl
  | cons e table ih =>
    obtain ⟨key, v⟩ := e
    rw [knownPart] at ih
    rw [knownPart, List.filter_cons]
    by_cases he : k = key
    · subst he
      rw [if_pos hk, List.lookup_cons_self, List.lookup_cons_self]
    · have hb : (k == key) = false := beq_false_of_ne he
      split_ifs
      · rw [List.lookup_cons, List.lookup_cons, hb, ih]
      · rw [List.lookup_cons, hb, ih]

theorem field_knownPart {α : Type} {key : String} (hk : key ∈ keys) (table : Toml.Table)
    (read? : Toml.Value → Option α) :
    field (knownPart table) key read? = field table key read? := by
  rw [field, field, lookup_knownPart (isKey_iff.2 ⟨key, hk, rfl⟩)]

end Settings

namespace Overrides

open Settings

theorem ofFields_knownPart (table : Toml.Table) : ofFields (knownPart table) = ofFields table := by
  have hk : ∀ {α : Type} (key : String) (read? : Toml.Value → Option α), key ∈ keys →
      field (knownPart table) key read? = field table key read? :=
    fun key read? h => field_knownPart h table read?
  rw [ofFields, ofFields, hk _ _ (by decide), hk _ _ (by decide), hk _ _ (by decide),
    hk _ _ (by decide), hk _ _ (by decide), hk _ _ (by decide)]

theorem ofTable_of_known {table : Toml.Table} (h : ∀ e ∈ table, isKey e.1) :
    ofTable table = ofFields table := by
  have hf : (table.find? fun e => !keys.any (·.toList == e.1)) = none := by
    rw [List.find?_eq_none]
    intro e he
    have hk := h e he
    rw [isKey] at hk
    simp only [hk, Bool.not_true, Bool.false_eq_true, not_false_eq_true]
  rw [ofTable, hf]

/-- The strict reader names a key that is none of settings. -/
theorem ofTable_of_unknown {table : Toml.Table} (h : ∃ e ∈ table, isKey e.1 = false) :
    ∃ e ∈ table, isKey e.1 = false ∧ ofTable table = .error (.unknownKey e.1) := by
  obtain ⟨e, he, hk⟩ := h
  cases hf : table.find? fun e => !keys.any (·.toList == e.1) with
  | none =>
    have hn := List.find?_eq_none.1 hf e he
    rw [isKey] at hk
    simp only [hk, Bool.not_false, not_true_eq_false] at hn
  | some u =>
    refine ⟨u, List.mem_of_find?_eq_some hf, ?_, ?_⟩
    · simpa only [isKey, Bool.not_eq_true'] using List.find?_some hf
    · rw [ofTable, hf]

theorem ofTable_knownPart (table : Toml.Table) : ofTable (knownPart table) = ofFields table := by
  have hk : ∀ e ∈ knownPart table, isKey e.1 := fun e he => (List.mem_filter.1 he).2
  rw [ofTable_of_known hk, ofFields_knownPart]

end Overrides

namespace Settings

theorem ofToml_eq_of_parse {t : Text} {table : Toml.Table} (h : Toml.parse t = .ok table) :
    ofToml t = (Overrides.ofFields table).map (·.apply {}) := by
  rw [ofToml, h, ← ofTable_eq_map]

theorem exists_parse_of_ofToml {t : Text} {s : Settings} (h : ofToml t = .ok s) :
    ∃ table, Toml.parse t = .ok table := by
  rw [ofToml] at h
  cases hp : Toml.parse t with
  | error e =>
    rw [hp] at h
    contradiction
  | ok table => exact ⟨table, rfl⟩

end Settings

/-- The readers of settings agree. What the strict one accepts the lenient one reads in the same way
over the defaults, and where only the lenient one accepts a text, the text has a key that is none
of settings. In every table the lenient reader reads the entries with known keys, as the strict one
does and with the same errors. -/
theorem settings_readers_agree (t : Text) :
    (∀ o, Overrides.ofToml t = .ok o → Settings.ofToml t = .ok (o.apply {})) ∧
    (∀ s, Settings.ofToml t = .ok s → ((∀ o, Overrides.ofToml t ≠ .ok o) ↔
      ∃ table, Toml.parse t = .ok table ∧ ∃ e ∈ table, ∀ key ∈ Settings.keys, e.1 ≠ key.toList)) ∧
    ∀ table, Toml.parse t = .ok table →
      Settings.ofToml t = (Overrides.ofTable (Settings.knownPart table)).map (·.apply {}) := by
  refine ⟨fun o => Settings.ofToml_of_overrides, fun s hs => ?_, fun table hp => ?_⟩
  · obtain ⟨table, hp⟩ := Settings.exists_parse_of_ofToml hs
    have ho : Overrides.ofToml t = Overrides.ofTable table := by rw [Overrides.ofToml, hp]
    rw [ho]
    constructor
    · intro hn
      refine ⟨table, hp, ?_⟩
      by_contra hk
      have known : ∀ e ∈ table, Settings.isKey e.1 := by
        intro e he
        rw [← Bool.not_eq_false, Settings.not_isKey_iff]
        exact fun hu => hk ⟨e, he, hu⟩
      rw [Settings.ofToml_eq_of_parse hp] at hs
      obtain ⟨o, hf, -⟩ := Except.map_eq_ok_iff.1 hs
      exact hn o (Overrides.ofTable_of_known known ▸ hf)
    · rintro ⟨table', hp', e, he, hk⟩ o h
      obtain rfl := Except.ok.inj (hp.symm.trans hp')
      obtain ⟨u, -, -, hu⟩ :=
        Overrides.ofTable_of_unknown ⟨e, he, Settings.not_isKey_iff.2 hk⟩
      rw [hu] at h
      contradiction
  · rw [Settings.ofToml_eq_of_parse hp, Overrides.ofTable_knownPart]

/-- A misspelt key beside a known one. -/
def misspeltText : Text := "line_lenght = 60\nline_length = 79\n".toList

/-- The lenient reader passes over the misspelt key, and the strict one refuses the text for it. -/
theorem settings_readers_agree_misspeltText :
    Settings.ofToml misspeltText = .ok { lineLength := 79 } ∧
      (∀ o, Overrides.ofToml misspeltText ≠ .ok o) ∧
      ∃ table, Toml.parse misspeltText = .ok table ∧
        ∃ e ∈ table, ∀ key ∈ Settings.keys, e.1 ≠ key.toList := by
  have hs : Settings.ofToml misspeltText = .ok { lineLength := 79 } := by decide +kernel
  have ho : Overrides.ofToml misspeltText = .error (.unknownKey "line_lenght".toList) := by
    decide +kernel
  have hn : ∀ o, Overrides.ofToml misspeltText ≠ .ok o := by
    intro o h
    rw [ho] at h
    contradiction
  exact ⟨hs, hn, ((settings_readers_agree misspeltText).2.1 _ hs).1 hn⟩

end FencedCode
