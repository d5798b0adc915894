import FencedCode.Proofs.Decoding
import FencedCode.Proofs.TomlTables
import FencedCode.Settings.Discovery
import Mathlib.Data.List.Nodup

/-! Settings in files. Settings and overrides that are written as TOML are read back as they were,
by the lenient reader of settings and by the strict one of overrides. -/
namespace FencedCode

/-- The entries of a table under keys that may have nothing. -/
def entries (fs : List (String × Option Toml.Value)) : Toml.Table :=
  fs.flatMap fun f => f.2.toList.map (f.1.toList, ·)

section Entries

variable {fs : List (String × Option Toml.Value)}

theorem mem_entries {e : Text × Toml.Value} :
    e ∈ entries fs ↔ ∃ f ∈ fs, e.1 = f.1.toList ∧ f.2 = some e.2 := by
  obtain ⟨k, v⟩ := e
  simp [entries, and_comm, eq_comm]

theorem keys_entries : List.Sublist ((entries fs).map Prod.fst) (fs.map (·.1.toList)) := by
  induction fs with
  | nil => exact .slnil
  | cons f fs ih =>
    obtain ⟨k, v⟩ := f
    cases v with
    | none => exact ih.cons _
    | some v => exact ih.cons_cons _

theorem nodup_keys_entries (h : (fs.map Prod.fst).Nodup) : ((entries fs).map Prod.fst).Nodup := by
  have hm : fs.map (·.1.toList) = (fs.map Prod.fst).map String.toList := by
    rw [List.map_map]
    rfl
  apply keys_entries.nodup
  rw [hm]
  exact List.Nodup.map (fun _ _ he => String.toList_injective he) h

/-- Distinct keys are found with what they have. -/
theorem lookup_entries (h : (fs.map Prod.fst).Nodup) {k : String} {v : Option Toml.Value}
    (hm : (k, v) ∈ fs) : (entries fs).lookup k.toList = v := by
  cases v with
  | none =>
    rw [List.lookup_eq_none_iff]
    intro e he
    obtain ⟨f, hf, hk, hv⟩ := mem_entries.1 he
    rw [bne_iff_ne, hk]
    intro hs
    obtain rfl := List.inj_on_of_nodup_map h hm hf (String.toList_injective hs)
    contradiction
  | some v =>
    have he : (k.toList, v) ∈ entries fs := mem_entries.2 ⟨_, hm, rfl, rfl⟩
    obtain ⟨l, r, hs⟩ := List.append_of_mem he
    have hd := nodup_keys_entries h
    rw [hs, List.map_append, List.map_cons] at hd
    rw [List.lookup_eq_some_iff]
    refine ⟨l, r, hs, fun e he => ?_⟩
    rw [bne_iff_ne]
    intro hk
    exact (List.nodup_append.1 hd).2.2 _ (List.mem_map_of_mem he) _ List.mem_cons_self hk.symm

theorem plainTable_entries (h : (fs.map Prod.fst).Nodup)
    (hb : ∀ f ∈ fs, Toml.isBareKey f.1.toList)
    (hp : ∀ f ∈ fs, ∀ v ∈ f.2, Toml.Plain Toml.maxDepth v) : Toml.PlainTable (entries fs) where
  bare e he := by
    obtain ⟨f, hf, hk, -⟩ := mem_entries.1 he
    rw [hk]
    exact hb f hf
  plain e he := by
    obtain ⟨f, hf, -, hv⟩ := mem_entries.1 he
    exact hp f hf e.2 hv
  distinct := nodup_keys_entries h

end Entries

section Fields

theorem nat?_integer {n : Nat} (h : n ≤ 9223372036854775807) :
    Settings.nat? (.integer n) = some n := by
  have hf : fitsWord n := by
    rw [fitsWord, decide_eq_true_eq]
    omega
  simp [Settings.nat?, hf]

theorem list?_array {α : Type} {item? : Toml.Value → Option α} {encode : α → Toml.Value}
    (h : ∀ x, item? (encode x) = some x) (xs : List α) :
    Settings.list? item? (.array (xs.map encode)) = some xs := by
  have he : item? ∘ encode = fun x => pure (id x) := by
    funext x
    exact h x
  rw [Settings.list?, List.mapM_map, he, List.mapM_pure, List.map_id]
  rfl

theorem target?_text (v : Target) : Settings.target? (.text v.name.toList) = some v := by
  cases v <;> decide

end Fields

namespace Overrides

/-- What overrides have under the keys of settings. -/
def fields (o : Overrides) : List (String × Option Toml.Value) :=
  [("line_length", o.lineLength.map fun n : Nat => .integer n),
    ("target_versions", o.targets.map fun vs => .array (vs.map fun v => .text v.name.toList)),
    ("skip_string_normalization", o.skipStringNormalization.map .boolean),
    ("skip_errors", o.skipErrors.map .boolean),
    ("languages", o.languages.map fun ts => .array (ts.map .text)),
    ("formatter_command", o.formatterCommand.map fun ts => .array (ts.map .text))]

theorem toTable_eq (o : Overrides) : o.toTable = entries o.fields := by
  cases hn : o.lineLength <;> simp [toTable, entries, fields, hn]

theorem keys_fields (o : Overrides) : o.fields.map Prod.fst = Settings.keys := rfl

theorem nodup_fields (o : Overrides) : (o.fields.map Prod.fst).Nodup := by
  rw [keys_fields]
  decide

/-- A field is read back if its values are. -/
theorem field_toTable {α : Type} {o : Overrides} {k : String} {a : Option α}
    {encode : α → Toml.Value} {read? : Toml.Value → Option α} (h : (k, a.map encode) ∈ o.fields)
    (hr : ∀ x ∈ a, read? (encode x) = some x) : Settings.field o.toTable k read? = .ok a := by
  have hl := lookup_entries o.nodup_fields h
  rw [← toTable_eq] at hl
  cases a with
  | none => rw [Settings.field, hl, Option.map_none]
  | some x => simp [Settings.field, hl, hr x rfl]

theorem exists_key_of_mem_toTable {o : Overrides} {e : Text × Toml.Value} (h : e ∈ o.toTable) :
    ∃ k ∈ Settings.keys, e.1 = k.toList := by
  rw [toTable_eq] at h
  obtain ⟨f, hf, hk, -⟩ := mem_entries.1 h
  rw [← o.keys_fields]
  exact ⟨f.1, List.mem_map_of_mem hf, hk⟩

theorem plainTable_toTable {o : Overrides} (h : ∀ n ∈ o.lineLength, n ≤ 9223372036854775807) :
    Toml.PlainTable o.toTable := by
  rw [toTable_eq]
  refine plainTable_entries o.nodup_fields (fun f hf => ?_) fun f hf v hv => ?_
  · have bare : ∀ k ∈ Settings.keys, Toml.isBareKey k.toList := by decide
    apply bare
    rw [← o.keys_fields]
    exact List.mem_map_of_mem hf
  · have texts : ∀ ts : List Text, Toml.Plain Toml.maxDepth (.array (ts.map .text)) := by
      intro ts
      refine .array fun v hv => ?_
      obtain ⟨t, -, rfl⟩ := List.mem_map.1 hv
      exact .text _ t
    simp only [fields, List.mem_cons, List.not_mem_nil, or_false] at hf
    rcases hf with rfl | rfl | rfl | rfl | rfl | rfl
    all_goals obtain ⟨x, hx, rfl⟩ := Option.map_eq_some_iff.1 hv
    · have hb := h x hx
      refine .integer _ ?_
      simp only [fitsSignedWord, Bool.and_eq_true, decide_eq_true_eq]
      omega
    · have ht := texts (x.map (·.name.toList))
      rwa [List.map_map] at ht
    · exact .boolean _ x
    · exact .boolean _ x
    · exact texts x
    · exact texts x

/-- Overrides are read back from their table. What they leave open stays open. -/
theorem ofTable_toTable {o : Overrides} (h : ∀ n ∈ o.lineLength, n ≤ 9223372036854775807) :
    ofTable o.toTable = .ok o := by
  have known : (o.toTable.find? fun e => !Settings.keys.any (·.toList == e.1)) = none := by
    rw [List.find?_eq_none]
    intro e he
    obtain ⟨k, hk, hs⟩ := exists_key_of_mem_toTable he
    simpa using ⟨k, hk, hs.symm⟩
  have length : Settings.field o.toTable "line_length" Settings.nat? = .ok o.lineLength :=
    field_toTable (.head _) fun n hn => nat?_integer (h n hn)
  have targets : Settings.field o.toTable "target_versions" (Settings.list? Settings.target?) =
      .ok o.targets :=
    field_toTable (.tail _ (.head _)) fun vs _ => list?_array target?_text vs
  have normalization : Settings.field o.toTable "skip_string_normalization" Settings.bool? =
      .ok o.skipStringNormalization :=
    field_toTable (.tail _ (.tail _ (.head _))) fun _ _ => rfl
  have errors : Settings.field o.toTable "skip_errors" Settings.bool? = .ok o.skipErrors :=
    field_toTable (.tail _ (.tail _ (.tail _ (.head _)))) fun _ _ => rfl
  have texts : ∀ ts : List Text, Settings.list? Settings.text? (.array (ts.map .text)) = some ts :=
    list?_array fun _ => rfl
  have languages : Settings.field o.toTable "languages" (Settings.list? Settings.text?) =
      .ok o.languages :=
    field_toTable (.tail _ (.tail _ (.tail _ (.tail _ (.head _))))) fun ts _ => texts ts
  have command : Settings.field o.toTable "formatter_command" (Settings.list? Settings.text?) =
      .ok o.formatterCommand :=
    field_toTable (.tail _ (.tail _ (.tail _ (.tail _ (.tail _ (.head _)))))) fun ts _ => texts ts
  rw [ofTable, known]
  simp only [ofFields, length, targets, normalization, errors, languages, command]
  rfl

theorem exists_toToml {o : Overrides} (h : ∀ n ∈ o.lineLength, n ≤ 9223372036854775807) :
    ∃ t, o.toToml = .ok t ∧ ofToml t = .ok o := by
  obtain ⟨t, hw, hp⟩ := (plainTable_toTable h).parse_write
  refine ⟨t, hw, ?_⟩
  rw [ofToml, hp]
  exact ofTable_toTable h

end Overrides

namespace Settings

variable {o : Overrides}

/-- The lenient reader fills in what the fields leave open. -/
theorem ofTable_eq_map (table : Toml.Table) :
    ofTable table = (Overrides.ofFields table).map (·.apply {}) := by
  change _ = (·.apply {}) <$> Overrides.ofFields table
  simp only [Overrides.ofFields, map_bind]
  rfl

/-- What the strict reader accepts, the lenient one reads in the same way over the defaults. -/
theorem ofTable_of_overrides {table : Toml.Table} (h : Overrides.ofTable table = .ok o) :
    ofTable table = .ok (o.apply {}) := by
  rw [Overrides.ofTable] at h
  split at h
  · contradiction
  · rw [ofTable_eq_map, h]
    rfl

theorem ofToml_of_overrides {t : Text} (h : Overrides.ofToml t = .ok o) :
    ofToml t = .ok (o.apply {}) := by
  rw [Overrides.ofToml] at h
  rw [ofToml]
  cases hp : Toml.parse t with
  | error e =>
    rw [hp] at h
    contradiction
  | ok table =>
    rw [hp] at h
    exact ofTable_of_overrides h

theorem ofFile_of_overrides {t : Text} {tree : Tree} {path : Path} (h : Overrides.ofToml t = .ok o)
    (hr : tree.read path = .ok t.utf8) : ofFile tree path = .ok (o.apply {}) := by
  have ht : tree.readText path = .ok t := by
    simp only [Tree.readText, hr, bind, Except.bind, Utf8.decode_utf8]
  rw [ofFile, ht]
  simp only [h]

end Settings

/-- Settings and overrides are written as TOML and read back: settings by either reader and from a
file that has the text, overrides with nothing added to what they leave open. -/
theorem settings_toml_roundtrip (s : Settings) (o : Overrides)
    (hs : s.lineLength ≤ 9223372036854775807)
    (ho : ∀ n ∈ o.lineLength, n ≤ 9223372036854775807) :
    (∃ t, s.toToml = .ok t ∧ Settings.ofToml t = .ok s ∧
      (∃ u, Overrides.ofToml t = .ok u ∧ u.apply {} = s) ∧
      ∀ tree path, Tree.read tree path = .ok t.utf8 → Settings.ofFile tree path = .ok s) ∧
    ∃ t, o.toToml = .ok t ∧ Overrides.ofToml t = .ok o := by
  have hl : ∀ n ∈ s.toOverrides.lineLength, n ≤ 9223372036854775807 := by
    rintro n ⟨⟩
    exact hs
  obtain ⟨t, hw, hr⟩ := Overrides.exists_toToml hl
  have ha : s.toOverrides.apply {} = s := rfl
  refine ⟨⟨t, hw, ?_, ⟨s.toOverrides, hr, ha⟩, fun tree path h => ?_⟩, Overrides.exists_toToml ho⟩
  · rw [Settings.ofToml_of_overrides hr, ha]
  · rw [Settings.ofFile_of_overrides hr h, ha]

/-- Settings with quotes, backslashes, breaks and control characters in their texts. -/
def quotedSettings : Settings where
  lineLength := 9223372036854775807
  targets := [.py310, .py27, .py310]
  skipErrors := true
  languages := [[], "'\\\"\n\"\"\"\x01\r".toList, "''''\n".toList, "''\"\\''".toList]
  formatterCommand := []

/-- The text of these settings, with a string of each form. -/
def quotedSettingsText : Text :=
  "line_length = 9223372036854775807\n".toList ++
    "target_versions = [\"py310\", \"py27\", \"py310\"]\n".toList ++
    "skip_string_normalization = false\nskip_errors = true\nlanguages = [\"\", ".toList ++
    "\"\"\"\n'\\\\\"\n\"\"\\\"\\u0001\\r\"\"\", \"\"\"\n''''\n\"\"\", '''''\"\\''''']\n".toList ++
    "formatter_command = []\n".toList

/-- A directory with a file that has the text. -/
def quotedSettingsTree : Tree where
  entries := [(["s.toml".toList], .file quotedSettingsText.utf8 {})]

theorem settings_toml_roundtrip_quotedSettings :
    quotedSettings.toToml = .ok quotedSettingsText ∧
      Settings.ofToml quotedSettingsText = .ok quotedSettings ∧
      Settings.ofFile quotedSettingsTree "s.toml".toList = .ok quotedSettings ∧
      Overrides.ofToml "languages = []\n".toList = .ok { languages := some [] } := by
  have hs : quotedSettings.toToml = .ok quotedSettingsText := by decide +kernel
  have hf : quotedSettingsTree.read "s.toml".toList = .ok quotedSettingsText.utf8 := by rfl
  have ho : Overrides.toToml { languages := some [] } = .ok "languages = []\n".toList := by
    decide +kernel
  obtain ⟨⟨t, ht, hr, -, hfile⟩, u, hu, hv⟩ :=
    settings_toml_roundtrip quotedSettings { languages := some [] } (by decide) (by simp)
  obtain rfl := Except.ok.inj (hs.symm.trans ht)
  obtain rfl := Except.ok.inj (ho.symm.trans hu)
  exact ⟨hs, hr, hfile _ _ hf, hv⟩

end FencedCode
