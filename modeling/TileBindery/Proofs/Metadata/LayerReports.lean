import Mathlib.Data.List.Induction
import TileBindery.Metadata.LayerStats
import TileBindery.Proofs.TextMap

/-!
# What the reports of a layer add up to

Tiles report their layers in calls, one call for each tile.  The statistics depend on the sequence of
the reports alone, and a report acts on its own layer alone, so each layer's summary is a sum over
the reports of that layer.  Apart from the first description, this sum is the same for all sequences
with the same reports: common types, least and greatest bounds do not depend on order or repetition.
-/

namespace TileBindery

/-! ### Common types -/

namespace FieldType

/-- The type of an attribute that was observed with the given types: the one they share, or text if
two of them differ. -/
def IsCommon (types : List FieldType) (type : FieldType) : Prop :=
  types ≠ [] ∧
    ((∀ other ∈ types, other = type) ∨ (type = .string ∧ ∃ a ∈ types, ∃ b ∈ types, a ≠ b))

variable {types others : List FieldType} {type other : FieldType}

theorem not_isCommon_nil : ¬IsCommon [] type := fun common => common.1 rfl

theorem isCommon_singleton : IsCommon [other] type ↔ other = type := by
  simp [IsCommon]

theorem exists_isCommon (observed : types ≠ []) : ∃ type, IsCommon types type := by
  obtain ⟨first, first_mem⟩ := List.exists_mem_of_ne_nil types observed
  by_cases agree : ∀ other ∈ types, other = first
  · exact ⟨first, observed, .inl agree⟩
  · obtain ⟨other, other_mem, differ⟩ : ∃ other ∈ types, other ≠ first := by simpa using agree
    exact ⟨.string, observed, .inr ⟨rfl, other, other_mem, first, first_mem, differ⟩⟩

theorem IsCommon.unique (one : IsCommon types type) (two : IsCommon types other) :
    type = other := by
  obtain ⟨observed, agree | ⟨mixed, a, a_mem, b, b_mem, differ⟩⟩ := one
  · obtain ⟨-, agree' | ⟨-, a, a_mem, b, b_mem, differ⟩⟩ := two
    · obtain ⟨first, first_mem⟩ := List.exists_mem_of_ne_nil types observed
      exact (agree first first_mem).symm.trans (agree' first first_mem)
    · exact absurd ((agree a a_mem).trans (agree b b_mem).symm) differ
  · obtain ⟨-, agree | ⟨mixed', -⟩⟩ := two
    · exact absurd ((agree a a_mem).trans (agree b b_mem).symm) differ
    · rw [mixed, mixed']

/-- One more observation is joined to the common type of those before. -/
theorem IsCommon.append (common : IsCommon types type) (other : FieldType) :
    IsCommon (types ++ [other]) (type.join other) := by
  obtain ⟨observed, agree | ⟨mixed, a, a_mem, b, b_mem, differ⟩⟩ := common
  · by_cases same : type = other
    · refine ⟨by simp, .inl fun one one_mem => ?_⟩
      rw [join, if_pos same]
      rcases List.mem_append.1 one_mem with before | last
      · exact agree one before
      · rw [List.mem_singleton.1 last, same]
    · obtain ⟨first, first_mem⟩ := List.exists_mem_of_ne_nil types observed
      refine ⟨by simp, .inr ⟨if_neg same, first, by simp [first_mem], other, by simp, ?_⟩⟩
      rwa [agree first first_mem]
  · refine ⟨by simp, .inr ⟨?_, a, by simp [a_mem], b, by simp [b_mem], differ⟩⟩
    rw [join, mixed, ite_self]

theorem isCommon_congr (same : ∀ one, one ∈ types ↔ one ∈ others) :
    IsCommon types type ↔ IsCommon others type := by
  have empty : types = [] ↔ others = [] := by
    simp only [List.eq_nil_iff_forall_not_mem, same]
  simp only [IsCommon, ne_eq, empty, same]

end FieldType

/-! ### Bounds -/

instance lawfulOrderMax_int32 : Std.LawfulOrderMax Int32 where
  max_eq_or a b := by
    change (if a ≤ b then b else a) = a ∨ (if a ≤ b then b else a) = b
    split <;> simp
  max_le_iff a b c := by
    change (if a ≤ b then b else a) ≤ c ↔ a ≤ c ∧ b ≤ c
    split <;> grind

theorem min?_append_singleton {bounds : List Int32} {low : Int32} (known : bounds.min? = some low)
    (bound : Int32) :
    (bounds ++ [bound]).min? = some (if bound < low then bound else low) := by
  rw [List.min?_eq_some_iff] at known ⊢
  grind

theorem max?_append_singleton {bounds : List Int32} {high : Int32}
    (known : bounds.max? = some high) (bound : Int32) :
    (bounds ++ [bound]).max? = some (if high < bound then bound else high) := by
  rw [List.max?_eq_some_iff] at known ⊢
  grind

theorem min?_congr {bounds others : List Int32} (same : ∀ bound, bound ∈ bounds ↔ bound ∈ others) :
    bounds.min? = others.min? := by
  ext low
  simp only [List.min?_eq_some_iff, same]

theorem max?_congr {bounds others : List Int32} (same : ∀ bound, bound ∈ bounds ↔ bound ∈ others) :
    bounds.max? = others.max? := by
  ext high
  simp only [List.max?_eq_some_iff, same]

/-! ### Reports -/

/-- One layer as one tile reports it. -/
structure LayerReport where
  /-- Zoom of the tile. -/
  zoom : UInt8
  layer : VectorLayer

namespace LayerReport

/-- The zoom of the tile, among the bounds of layers. -/
def tileZoom (report : LayerReport) : Int32 := Int32.ofNat report.zoom.toNat

/-- The reported least zoom, or the zoom of the tile if there is none. -/
def least (report : LayerReport) : Int32 := report.layer.minZoom.getD report.tileZoom

/-- The reported greatest zoom, or the zoom of the tile if there is none. -/
def greatest (report : LayerReport) : Int32 := report.layer.maxZoom.getD report.tileZoom

/-- The reports made in a sequence of calls, each with the zoom of a tile and its layers. -/
def ofCalls (calls : List (UInt8 × List VectorLayer)) : List LayerReport :=
  calls.flatMap fun call => call.2.map fun layer => ⟨call.1, layer⟩

/-- The reports of one layer. -/
def about (id : String) (reports : List LayerReport) : List LayerReport :=
  reports.filter fun report => report.layer.id = id

/-- The types with which an attribute is reported. -/
def observed (name : String) (reports : List LayerReport) : List FieldType :=
  reports.filterMap fun report => report.layer.fields.get? name

theorem about_append (id : String) (reports : List LayerReport) (report : LayerReport) :
    about id (reports ++ [report]) =
      about id reports ++ if report.layer.id = id then [report] else [] := by
  rw [about, List.filter_append]
  by_cases same : report.layer.id = id <;> simp [about, same]

theorem about_ne_nil_iff {id : String} {reports : List LayerReport} :
    about id reports ≠ [] ↔ ∃ report ∈ reports, report.layer.id = id := by
  simp [about]

theorem observed_append (name : String) (reports : List LayerReport) (report : LayerReport) :
    observed name (reports ++ [report]) =
      observed name reports ++ (report.layer.fields.get? name).toList := by
  rw [observed, List.filterMap_append]
  cases found : report.layer.fields.get? name <;> simp [observed, found]

end LayerReport

open LayerReport

namespace VectorLayer

/-- The schema of a layer is what the reports of the layer add up to. -/
structure SumsUp (layer : VectorLayer) (reports : List LayerReport) : Prop where
  fields : ∀ name type,
    layer.fields.get? name = some type ↔ FieldType.IsCommon (observed name reports) type
  description : layer.description = reports.findSome? fun report => report.layer.description
  minZoom : layer.minZoom = (reports.map least).min?
  maxZoom : layer.maxZoom = (reports.map greatest).max?

/-- A layer's schema but for the description. -/
def outline (layer : VectorLayer) : String × TextMap FieldType × Option Int32 × Option Int32 :=
  (layer.id, layer.fields, layer.minZoom, layer.maxZoom)

/-- But for the description, reports add up to the same in any order and number. -/
theorem SumsUp.outline_eq {one two : VectorLayer} {reports others : List LayerReport}
    (first : one.SumsUp reports) (second : two.SumsUp others)
    (same : ∀ report, report ∈ reports ↔ report ∈ others) (id : one.id = two.id) :
    one.outline = two.outline := by
  have fields : one.fields = two.fields := by
    refine TextMap.ext_get? fun name => Option.ext fun type => ?_
    rw [first.fields, second.fields]
    exact FieldType.isCommon_congr fun type => by simp only [observed, List.mem_filterMap, same]
  have minZoom : one.minZoom = two.minZoom := by
    rw [first.minZoom, second.minZoom]
    exact min?_congr fun bound => by simp only [List.mem_map, same]
  have maxZoom : one.maxZoom = two.maxZoom := by
    rw [first.maxZoom, second.maxZoom]
    exact max?_congr fun bound => by simp only [List.mem_map, same]
  rw [outline, outline, id, fields, minZoom, maxZoom]

end VectorLayer

/-! ### One report -/

namespace LayerSummary

/-- A report's attributes are joined to those of the reports before. -/
theorem fields_of_report {fields : TextMap FieldType} {reports : List LayerReport}
    (known : ∀ name type,
      fields.get? name = some type ↔ FieldType.IsCommon (observed name reports) type)
    (report : LayerReport) (name : String) (type : FieldType) :
    (report.layer.fields.entries.foldl (fun fields entry => observe fields entry.1 entry.2)
        fields).get? name = some type ↔
      FieldType.IsCommon (observed name (reports ++ [report])) type := by
  have folded := TextMap.get?_foldl_alter report.layer.fields.ascending
    (fun type known => (known.map (·.join type)).getD type) fields name
  simp only [observe]
  rw [folded, observed_append]
  change (report.layer.fields.get? name).elim _ _ = _ ↔ _
  cases report.layer.fields.get? name with
  | none => simpa using known name type
  | some new =>
      cases held : fields.get? name with
      | none =>
          have unobserved : observed name reports = [] := by
            by_contra observed
            obtain ⟨common, isCommon⟩ := FieldType.exists_isCommon observed
            rw [(known name common).2 isCommon] at held
            cases held
          simp [unobserved, FieldType.isCommon_singleton]
      | some common =>
          have joined := ((known name common).1 held).append new
          constructor
          · intro same
            cases same
            exact joined
          · intro isCommon
            exact congrArg some (joined.unique isCommon)

/-- The first report of a layer. -/
theorem sumsUp_first (id : String) (report : LayerReport) :
    ((extend none report.tileZoom report.layer).layer id).SumsUp [report] where
  fields := by
    have nothing : ∀ name type, (TextMap.empty : TextMap FieldType).get? name = some type ↔
        FieldType.IsCommon (observed name []) type := fun name type => by
      simp [observed, FieldType.not_isCommon_nil]
    exact fields_of_report nothing report
  description := by
    cases given : report.layer.description <;> simp [layer, extend, given]
  minZoom := by
    simp [layer, extend, least]
  maxZoom := by
    simp [layer, extend, greatest]

/-- A further report of a layer. -/
theorem sumsUp_extend {id : String} {summary : LayerSummary} {reports : List LayerReport}
    (known : (summary.layer id).SumsUp reports) (report : LayerReport) :
    ((extend (some summary) report.tileZoom report.layer).layer id).SumsUp
      (reports ++ [report]) where
  fields := fields_of_report known.fields report
  description := by
    have before : summary.description = _ := known.description
    rw [List.findSome?_append, ← before]
    cases given : report.layer.description <;> simp [layer, extend, given]
  minZoom := by
    rw [List.map_append, List.map_singleton, min?_append_singleton known.minZoom.symm]
    rfl
  maxZoom := by
    rw [List.map_append, List.map_singleton, max?_append_singleton known.maxZoom.symm]
    rfl

/-- What is known of a layer accounts for its reports. -/
inductive Accounts (id : String) : Option LayerSummary → List LayerReport → Prop
  | unseen : Accounts id none []
  | seen {summary : LayerSummary} {reports : List LayerReport} :
      (summary.layer id).SumsUp reports → Accounts id (some summary) reports

theorem Accounts.extend {id : String} {known : Option LayerSummary} {reports : List LayerReport}
    (accounts : Accounts id known reports) (report : LayerReport) :
    Accounts id (some (LayerSummary.extend known report.tileZoom report.layer))
      (reports ++ [report]) := by
  cases accounts with
  | unseen => exact .seen (sumsUp_first id report)
  | seen sums => exact .seen (sumsUp_extend sums report)

/-- There is a summary of the layers that were reported. -/
theorem Accounts.isSome_iff {id : String} {known : Option LayerSummary}
    {reports : List LayerReport} (accounts : Accounts id known reports) :
    known.isSome ↔ reports ≠ [] := by
  cases accounts with
  | unseen => simp
  | @seen summary reports sums =>
      have given : some summary.minZoom = (reports.map least).min? := sums.minZoom
      constructor
      · rintro - rfl
        cases given
      · exact fun _ => rfl

end LayerSummary

/-! ### All reports -/

namespace LayerStats

/-- The statistics after a sequence of calls, each with the zoom of a tile and its layers. -/
def ofCalls (calls : List (UInt8 × List VectorLayer)) : LayerStats :=
  calls.foldl (fun stats call => stats.accept call.1 call.2) .empty

/-- The statistics after a sequence of reports. -/
def ofReports (reports : List LayerReport) : LayerStats :=
  reports.foldl (fun stats report => stats.acceptLayer report.zoom report.layer) .empty

/-- How the reports are split into calls makes no difference. -/
theorem ofCalls_eq (calls : List (UInt8 × List VectorLayer)) :
    ofCalls calls = ofReports (LayerReport.ofCalls calls) := by
  rw [ofReports, LayerReport.ofCalls, List.foldl_flatMap]
  simp only [List.foldl_map]
  rfl

theorem ofReports_append (reports : List LayerReport) (report : LayerReport) :
    ofReports (reports ++ [report]) =
      (ofReports reports).acceptLayer report.zoom report.layer := by
  rw [ofReports, List.foldl_append]
  rfl

/-- The summary of each layer accounts for the reports of that layer. -/
theorem accounts_ofReports (reports : List LayerReport) (id : String) :
    LayerSummary.Accounts id ((ofReports reports).summaries.get? id) (about id reports) := by
  -- From the end, where the fold acts last: a report changes the summary of its own layer only.
  induction reports using List.reverseRecOn with
  | nil => exact .unseen
  | append_singleton reports report ih =>
      rw [ofReports_append, acceptLayer, TextMap.get?_alter, about_append]
      split
      next same =>
        subst same
        exact ih.extend report
      next =>
        rw [List.append_nil]
        exact ih

theorem mem_vectorLayers_iff {stats : LayerStats} {layer : VectorLayer} :
    layer ∈ stats.vectorLayers ↔
      ∃ summary, stats.summaries.get? layer.id = some summary ∧ summary.layer layer.id = layer := by
  simp only [vectorLayers, List.mem_map, Prod.exists]
  constructor
  · rintro ⟨id, summary, member, rfl⟩
    exact ⟨summary, TextMap.mem_entries_iff.1 member, rfl⟩
  · rintro ⟨summary, found, same⟩
    exact ⟨layer.id, summary, TextMap.mem_entries_iff.2 found, same⟩

theorem ascending_vectorLayers (stats : LayerStats) :
    (stats.vectorLayers.map (·.id)).Pairwise (· < ·) := by
  rw [vectorLayers, List.map_map, List.pairwise_map]
  exact stats.summaries.ascending

/-- The schema of every layer is what the reports of the layer add up to. -/
theorem sumsUp_of_mem {calls : List (UInt8 × List VectorLayer)} {layer : VectorLayer}
    (member : layer ∈ (ofCalls calls).vectorLayers) :
    layer.SumsUp (about layer.id (LayerReport.ofCalls calls)) := by
  obtain ⟨summary, found, same⟩ := mem_vectorLayers_iff.1 member
  have accounts := accounts_ofReports (LayerReport.ofCalls calls) layer.id
  rw [← ofCalls_eq, found] at accounts
  cases accounts with
  | seen sums => rwa [same] at sums

/-- Just the reported layers are listed. -/
theorem exists_mem_iff {calls : List (UInt8 × List VectorLayer)} {id : String} :
    (∃ layer ∈ (ofCalls calls).vectorLayers, layer.id = id) ↔
      ∃ report ∈ LayerReport.ofCalls calls, report.layer.id = id := by
  have accounts := (accounts_ofReports (LayerReport.ofCalls calls) id).isSome_iff
  rw [← ofCalls_eq, Option.isSome_iff_exists] at accounts
  rw [← about_ne_nil_iff, ← accounts]
  constructor
  · rintro ⟨layer, member, rfl⟩
    obtain ⟨summary, found, -⟩ := mem_vectorLayers_iff.1 member
    exact ⟨summary, found⟩
  · rintro ⟨summary, found⟩
    exact ⟨summary.layer id, mem_vectorLayers_iff.2 ⟨summary, found, rfl⟩, rfl⟩

/-- A layer is listed with the same outline after all calls that make the same reports. -/
theorem exists_outline_eq {calls others : List (UInt8 × List VectorLayer)}
    (same : ∀ report, report ∈ LayerReport.ofCalls calls ↔ report ∈ LayerReport.ofCalls others)
    {layer : VectorLayer} (member : layer ∈ (ofCalls calls).vectorLayers) :
    ∃ other ∈ (ofCalls others).vectorLayers, other.outline = layer.outline := by
  obtain ⟨report, made, id⟩ := exists_mem_iff.1 ⟨layer, member, rfl⟩
  obtain ⟨other, other_mem, id'⟩ := exists_mem_iff.2 ⟨report, (same report).1 made, id⟩
  refine ⟨other, other_mem, (sumsUp_of_mem other_mem).outline_eq (sumsUp_of_mem member) ?_ id'⟩
  simp [about, same, id']

/-- Identifiers, attributes and zooms are the same for all sequences of calls with the same
reports. -/
theorem outlines_congr {calls others : List (UInt8 × List VectorLayer)}
    (same : ∀ report, report ∈ LayerReport.ofCalls calls ↔ report ∈ LayerReport.ofCalls others) :
    (ofCalls calls).vectorLayers.map (·.outline) = (ofCalls others).vectorLayers.map (·.outline) := by
  have ascending (stats : LayerStats) :
      (stats.vectorLayers.map (·.outline)).Pairwise fun a b => a.1 < b.1 := by
    have ids := ascending_vectorLayers stats
    rw [List.pairwise_map] at ids ⊢
    exact ids
  refine eq_of_ordered (fun _ _ => String.lt_asymm) (ascending _) (ascending _) fun outline => ?_
  constructor
  · rw [List.mem_map, List.mem_map]
    rintro ⟨layer, member, rfl⟩
    exact exists_outline_eq same member
  · rw [List.mem_map, List.mem_map]
    rintro ⟨layer, member, rfl⟩
    exact exists_outline_eq (fun report => (same report).symm) member

/-- The layers listed after any sequence of calls.  Each reported layer is listed once, in ascending
order, with what its reports add up to, and but for the descriptions any calls that make the same
reports, however ordered, repeated and split, list the same. -/
theorem vectorLayers_add_up (calls : List (UInt8 × List VectorLayer)) :
    ((ofCalls calls).vectorLayers.map (·.id)).Pairwise (· < ·) ∧
      (∀ id, id ∈ (ofCalls calls).vectorLayers.map (·.id) ↔
        ∃ report ∈ LayerReport.ofCalls calls, report.layer.id = id) ∧
      (∀ layer ∈ (ofCalls calls).vectorLayers,
        layer.SumsUp (about layer.id (LayerReport.ofCalls calls))) ∧
      ∀ others,
        (∀ report, report ∈ LayerReport.ofCalls others ↔ report ∈ LayerReport.ofCalls calls) →
          (ofCalls others).vectorLayers.map (·.outline) =
            (ofCalls calls).vectorLayers.map (·.outline) := by
  refine ⟨ascending_vectorLayers _, fun id => ?_, fun layer member => sumsUp_of_mem member,
    fun others same => outlines_congr same⟩
  rw [List.mem_map]
  exact exists_mem_iff

end LayerStats
end TileBindery
