import TileBindery.Proofs.Toml.Documents
import TileBindery.Settings.Toml

/-!
# Settings are read from the TOML they are written as

The main statement says that settings that pass their check and whose numbers TOML can hold are
written, and that reading the text gives them back, whatever characters their texts hold, whichever
optional fields are present, and however many cores the machine has.
-/

namespace TileBindery

namespace TomlValue

theorem natural?_ofNat (n : Nat) : (ofNat n).natural? = some n := by
  rw [ofNat, natural?, if_neg (Int.not_lt.2 (Int.natCast_nonneg n)), Int.toNat_natCast]

theorem text?_text (text : String) : (TomlValue.text text).text? = some text := rfl

/-- An optional field gives back what it was written for. -/
theorem optional_map {α : Type} {read : TomlValue → Option α} {form : α → TomlValue}
    (each : ∀ value, read (form value) = some value) (item : Option α) :
    optional read (item.map form) = some item := by
  cases item with
  | none => rfl
  | some value => exact congrArg (Option.map some) (each value)

end TomlValue

open TomlReader

namespace SortSettings

/-- The fields that are written, with what each of them holds. -/
def fields (sort : SortSettings) : List (String × Option TomlValue) :=
  [("chunk_bytes", sort.chunkBytes.map .ofNat), ("chunk_features", sort.chunkFeatures.map .ofNat),
    ("compress", some (.bool sort.compress))]

theorem names_fields (sort : SortSettings) : sort.fields.map Prod.fst = fieldNames := rfl

theorem fields_toToml {sort : SortSettings}
    (bytes_small : ∀ n ∈ sort.chunkBytes, n ≤ TomlValue.maxInteger)
    (features_small : ∀ n ∈ sort.chunkFeatures, n ≤ TomlValue.maxInteger) :
    Fields sort.toToml sort.fields := by
  have bytes := Fields.optional (show isBare "chunk_bytes" from rfl) fun n set =>
    .natural (bytes_small n set)
  have features := Fields.optional (show isBare "chunk_features" from rfl) fun n set =>
    .natural (features_small n set)
  have compress := Fields.entry (show isBare "compress" from rfl) (.bool sort.compress)
  exact (bytes.append features).append compress

theorem distinct_fieldNames : fieldNames.Nodup := by decide

theorem ofTomlValue?_record (sort : SortSettings) :
    ofTomlValue? (record sort.fields) = some sort := by
  have read := fields?_record (sort.names_fields ▸ distinct_fieldNames)
  rw [names_fields] at read
  rw [ofTomlValue?, read]
  simp only [fields, List.map_cons, List.map_nil, TomlValue.optional_map TomlValue.natural?_ofNat,
    TomlValue.orElse, TomlValue.bool?, Option.bind_eq_bind, Option.bind_some, Option.pure_def]

end SortSettings

namespace OutputSettings

/-- The fields that are written, with what each of them holds. -/
def fields (output : OutputSettings) : List (String × Option TomlValue) :=
  [("format", some (.text output.format)), ("shards", some (.ofNat output.shards)),
    ("append", some (.bool output.append)),
    ("column_separator", output.columnSeparator.map .text),
    ("line_separator", output.lineSeparator.map .text),
    ("binary_encoding", some (.text output.binaryEncoding))]

theorem names_fields (output : OutputSettings) : output.fields.map Prod.fst = fieldNames := rfl

theorem distinct_fieldNames : fieldNames.Nodup := by decide

theorem fields_toToml {output : OutputSettings} (small : output.shards ≤ TomlValue.maxInteger) :
    Fields output.toToml output.fields := by
  have format := Fields.entry (show isBare "format" from rfl) (.text output.format)
  have shards := Fields.entry (show isBare "shards" from rfl) (.natural small)
  have append := Fields.entry (show isBare "append" from rfl) (.bool output.append)
  have columns := Fields.optional (show isBare "column_separator" from rfl)
    fun text (_ : text ∈ output.columnSeparator) => .text text
  have lines := Fields.optional (show isBare "line_separator" from rfl)
    fun text (_ : text ∈ output.lineSeparator) => .text text
  have encoding := Fields.entry (show isBare "binary_encoding" from rfl)
    (.text output.binaryEncoding)
  exact ((((format.append shards).append append).append columns).append lines).append encoding

theorem ofTomlValue?_record (output : OutputSettings) :
    ofTomlValue? (record output.fields) = some output := by
  have read := fields?_record (output.names_fields ▸ distinct_fieldNames)
  rw [names_fields] at read
  rw [ofTomlValue?, read]
  simp only [fields, List.map_cons, List.map_nil, TomlValue.optional_map TomlValue.text?_text,
    TomlValue.orElse, TomlValue.bool?, TomlValue.text?_text, TomlValue.natural?_ofNat,
    Option.bind_eq_bind, Option.bind_some, Option.pure_def]

end OutputSettings

namespace Settings

/-- The fields that are written in front of the sections, with what each of them holds. -/
def fields (settings : Settings) : List (String × Option TomlValue) :=
  [("tmp_dir", some (.text settings.workspace)), ("threads", some (.ofNat settings.threads)),
    ("force_overwrite", some (.bool settings.forceOverwrite)),
    ("render_batch_size", some (.ofNat settings.batchSize)),
    ("emit_empty_tiles", some (.bool settings.emitEmptyTiles))]

/-- The sections that are written, with their fields. -/
def sections (settings : Settings) : List (String × List (String × Option TomlValue)) :=
  [("sort", settings.sort.fields), ("output", settings.output.fields)]

theorem names_withSections (settings : Settings) :
    (withSections settings.fields settings.sections).map Prod.fst = fieldNames := rfl

theorem distinct_fieldNames : fieldNames.Nodup := by decide

variable {settings : Settings}

theorem document_toTomlText (small : ∀ n ∈ settings.numbers, n ≤ TomlValue.maxInteger) :
    Document settings.toTomlText settings.fields settings.sections := by
  have workspace := Fields.entry (show isBare "tmp_dir" from rfl) (.text settings.workspace)
  have threads := Fields.entry (show isBare "threads" from rfl)
    (.natural (small settings.threads (by simp [numbers])))
  have overwrite := Fields.entry (show isBare "force_overwrite" from rfl)
    (.bool settings.forceOverwrite)
  have batch := Fields.entry (show isBare "render_batch_size" from rfl)
    (.natural (small settings.batchSize (by simp [numbers])))
  have empties := Fields.entry (show isBare "emit_empty_tiles" from rfl)
    (.bool settings.emitEmptyTiles)
  have sort : Fields settings.sort.toToml settings.sort.fields :=
    SortSettings.fields_toToml (fun n set => small n (by simp [numbers, Option.mem_def.1 set]))
      (fun n set => small n (by simp [numbers, Option.mem_def.1 set]))
  have output : Fields settings.output.toToml settings.output.fields :=
    OutputSettings.fields_toToml (small settings.output.shards (by simp [numbers]))
  have front := (((workspace.append threads).append overwrite).append batch).append empties
  have document := (Document.root front).withSection (show isBare "sort" from rfl) sort
  exact document.withSection (show isBare "output" from rfl) output

theorem parse_toTomlText (small : ∀ n ∈ settings.numbers, n ≤ TomlValue.maxInteger) :
    parse settings.toTomlText = some (record (withSections settings.fields settings.sections)) := by
  refine (document_toTomlText small).parse ?_ (settings.names_withSections ▸ distinct_fieldNames) ?_
  · exact fun same => absurd (Option.some.inj same) (by decide)
  · intro each member
    simp only [sections, List.mem_cons, List.not_mem_nil, or_false] at member
    rcases member with rfl | rfl
    · exact SortSettings.distinct_fieldNames
    · exact OutputSettings.distinct_fieldNames

theorem ofTomlValue?_record (settings : Settings) (cores : Nat) :
    ofTomlValue? cores (record (withSections settings.fields settings.sections)) =
      some settings := by
  have read := fields?_record (settings.names_withSections ▸ distinct_fieldNames)
  rw [names_withSections] at read
  rw [ofTomlValue?, read]
  simp only [withSections, fields, sections, List.map_cons, List.map_nil, List.cons_append,
    List.nil_append, TomlValue.orElse, TomlValue.bool?, TomlValue.text?_text,
    TomlValue.natural?_ofNat, SortSettings.ofTomlValue?_record,
    OutputSettings.ofTomlValue?_record, Option.bind_eq_bind, Option.bind_some, Option.pure_def]

/-- Settings are read as they are written, and refused only if their check refuses them. -/
theorem ofToml_toTomlText (small : ∀ n ∈ settings.numbers, n ≤ TomlValue.maxInteger)
    (cores : Nat) : ofToml cores settings.toTomlText = settings.check.map fun _ => settings := by
  rw [ofToml, parse_toTomlText small, Option.bind_some, ofTomlValue?_record]
  dsimp only
  cases settings.check <;> rfl

theorem toToml_of_small (small : ∀ n ∈ settings.numbers, n ≤ TomlValue.maxInteger) :
    settings.toToml = .ok settings.toTomlText := by
  refine if_neg ?_
  rw [List.any_eq_true]
  rintro ⟨n, member, large⟩
  exact Nat.not_lt.2 (small n member) (of_decide_eq_true large)

/-- Settings that pass their check and whose numbers TOML can hold are written, and the text is read
as those settings on every machine. -/
theorem reads_written_settings (valid : settings.check = .ok ())
    (small : ∀ n ∈ settings.numbers, n ≤ TomlValue.maxInteger) :
    ∃ text, settings.toToml = .ok text ∧ ∀ cores, ofToml cores text = .ok settings := by
  refine ⟨settings.toTomlText, toToml_of_small small, ?_⟩
  intro cores
  rw [ofToml_toTomlText small, valid]
  rfl

/-- A path that needs escapes and both kinds of quotes, a separator with line breaks and quotes, one
with an escape of its own, and a limit as large as TOML can hold. -/
theorem reads_written_settings_quoted :
    let settings : Settings :=
      { standard 4 with
        workspace := "\"é\\\x07\x7f\r\n\t''' \"\"\"\x00"
        sort := ⟨none, some (2 ^ 63 - 1), true⟩
        output := ⟨"tsv", 1, true, some "\n'\"\"", some "\\n", "none"⟩ }
    settings.check = .ok () ∧ (∀ n ∈ settings.numbers, n ≤ TomlValue.maxInteger) ∧
      ∃ text, settings.toToml = .ok text ∧ ∀ cores, ofToml cores text = .ok settings := by
  intro settings
  have valid : settings.check = .ok () := by decide
  have small : ∀ n ∈ settings.numbers, n ≤ TomlValue.maxInteger := by decide
  exact ⟨valid, small, reads_written_settings valid small⟩

end Settings
end TileBindery
