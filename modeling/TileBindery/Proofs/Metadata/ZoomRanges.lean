import TileBindery.Proofs.Metadata.LayerReports

/-!
# When the zoom ranges of layers are ordered

The least and the greatest zoom of a layer are gathered apart: each report contributes a bound to
either, the zoom of its tile where it gives none.  So the range of a layer is ordered exactly if the
lower bound of one of its reports does not exceed the upper bound of one of them.  Even a single
report whose own range is in order fails this when it gives one bound and its tile lies beyond it.
-/

namespace TileBindery

open LayerReport

/-- The least zoom does not lie above the greatest, if both are given. -/
def VectorLayer.Ordered (layer : VectorLayer) : Prop :=
  ∀ low ∈ layer.minZoom, ∀ high ∈ layer.maxZoom, low ≤ high

namespace LayerReport

/-- The report gives one bound, and its tile lies beyond it. -/
def Strays (report : LayerReport) : Prop :=
  match report.layer.minZoom, report.layer.maxZoom with
  | some low, none => report.tileZoom < low
  | none, some high => high < report.tileZoom
  | none, none => False
  | some _, some _ => False

/-- If a report's own range is in order, only a tile beyond its one bound puts its bounds out of
order. -/
theorem strays_iff {report : LayerReport} (ordered : report.layer.Ordered) :
    report.Strays ↔ report.greatest < report.least := by
  rw [Strays, least, greatest]
  cases minZoom : report.layer.minZoom with
  | none =>
      cases maxZoom : report.layer.maxZoom with
      | none => exact ⟨False.elim, fun less => Int32.lt_irrefl less⟩
      | some high => exact Iff.rfl
  | some low =>
      cases maxZoom : report.layer.maxZoom with
      | none => exact Iff.rfl
      | some high =>
          have within : low ≤ high := ordered low minZoom high maxZoom
          exact ⟨False.elim, fun less => Int32.not_lt.2 within less⟩

end LayerReport

namespace VectorLayer.SumsUp

variable {layer : VectorLayer} {reports : List LayerReport}

/-- A reported layer has both bounds. -/
theorem exists_bounds (sums : layer.SumsUp reports) (reported : reports ≠ []) :
    ∃ low high, layer.minZoom = some low ∧ layer.maxZoom = some high := by
  have least : (reports.map LayerReport.least).min? ≠ none := by
    rwa [ne_eq, List.min?_eq_none_iff, List.map_eq_nil_iff]
  have greatest : (reports.map LayerReport.greatest).max? ≠ none := by
    rwa [ne_eq, List.max?_eq_none_iff, List.map_eq_nil_iff]
  rw [← sums.minZoom] at least
  rw [← sums.maxZoom] at greatest
  obtain ⟨low, minZoom⟩ := Option.ne_none_iff_exists'.1 least
  obtain ⟨high, maxZoom⟩ := Option.ne_none_iff_exists'.1 greatest
  exact ⟨low, high, minZoom, maxZoom⟩

/-- The range is in order if the lower bound of one report does not exceed the upper bound of one. -/
theorem ordered_iff (sums : layer.SumsUp reports) (reported : reports ≠ []) :
    layer.Ordered ↔ ∃ report ∈ reports, ∃ other ∈ reports, report.least ≤ other.greatest := by
  obtain ⟨low, high, minZoom, maxZoom⟩ := sums.exists_bounds reported
  obtain ⟨low_mem, lowest⟩ := List.min?_eq_some_iff.1 (sums.minZoom.symm.trans minZoom)
  obtain ⟨high_mem, highest⟩ := List.max?_eq_some_iff.1 (sums.maxZoom.symm.trans maxZoom)
  constructor
  · intro ordered
    obtain ⟨report, report_mem, rfl⟩ := List.mem_map.1 low_mem
    obtain ⟨other, other_mem, rfl⟩ := List.mem_map.1 high_mem
    exact ⟨report, report_mem, other, other_mem, ordered _ minZoom _ maxZoom⟩
  · rintro ⟨report, report_mem, other, other_mem, within⟩ low' given high' given'
    obtain rfl : low = low' := Option.some.inj (minZoom.symm.trans given)
    obtain rfl : high = high' := Option.some.inj (maxZoom.symm.trans given')
    have below : low ≤ report.least := lowest _ (List.mem_map_of_mem report_mem)
    have above : other.greatest ≤ high := highest _ (List.mem_map_of_mem other_mem)
    exact Int32.le_trans below (Int32.le_trans within above)

end VectorLayer.SumsUp

namespace LayerStats

/-- Zoom ranges after any sequence of calls whose reports have their own ranges in order.  A layer
has both bounds, and they are in order exactly if the lower bound of one of its reports does not
exceed the upper bound of one of them; a report that does not stray is enough.  The foot of an archive
that declares no layers carries these ranges. -/
theorem zoom_ranges_ordered_iff (calls : List (UInt8 × List VectorLayer))
    (ordered : ∀ report ∈ LayerReport.ofCalls calls, report.layer.Ordered) :
    (∀ layer ∈ (ofCalls calls).vectorLayers,
      (∃ low high, layer.minZoom = some low ∧ layer.maxZoom = some high) ∧
        (layer.Ordered ↔ ∃ report ∈ about layer.id (LayerReport.ofCalls calls),
          ∃ other ∈ about layer.id (LayerReport.ofCalls calls), report.least ≤ other.greatest) ∧
        ((∃ report ∈ about layer.id (LayerReport.ofCalls calls), ¬report.Strays) →
          layer.Ordered)) ∧
      ∀ metadata layers, metadata.vectorLayers = none →
        ((ofCalls calls).complete metadata).vectorLayers = some layers →
          layers = (ofCalls calls).vectorLayers := by
  refine ⟨fun layer member => ?_, fun metadata layers undeclared filled => ?_⟩
  · have sums := sumsUp_of_mem member
    have reported := about_ne_nil_iff.2 (exists_mem_iff.1 ⟨layer, member, rfl⟩)
    refine ⟨sums.exists_bounds reported, sums.ordered_iff reported, ?_⟩
    rintro ⟨report, report_mem, steady⟩
    have made := List.mem_of_mem_filter report_mem
    rw [strays_iff (ordered report made), Int32.not_lt] at steady
    exact (sums.ordered_iff reported).2 ⟨report, report_mem, report, report_mem, steady⟩
  · rw [complete] at filled
    split at filled
    · exact (Option.some.inj filled).symm
    · rw [undeclared] at filled
      cases filled

/-- A layer that starts at zoom 10 and names no end. -/
def openEnded : VectorLayer := ⟨"water", .empty, none, some 10, none⟩

/-- The tile at zoom 4 lies below the layer's one bound; the report of the tile at zoom 12 makes up
for it. -/
theorem zoom_ranges_ordered_steadied :
    (∀ report ∈ LayerReport.ofCalls [(4, [openEnded]), (12, [openEnded])], report.layer.Ordered) ∧
      ∀ layer ∈ (ofCalls [(4, [openEnded]), (12, [openEnded])]).vectorLayers, layer.Ordered := by
  have ordered : ∀ report ∈ LayerReport.ofCalls [(4, [openEnded]), (12, [openEnded])],
      report.layer.Ordered := by
    simp [LayerReport.ofCalls, VectorLayer.Ordered, openEnded]
  refine ⟨ordered, fun layer member => ((zoom_ranges_ordered_iff _ ordered).1 layer member).2.2 ?_⟩
  have about_layer : openEnded.id = layer.id := by
    obtain ⟨report, made, id⟩ := exists_mem_iff.1 ⟨layer, member, rfl⟩
    have either : report = ⟨4, openEnded⟩ ∨ report = ⟨12, openEnded⟩ := by
      simpa [LayerReport.ofCalls] using made
    rcases either with rfl | rfl <;> exact id
  have listed : ⟨12, openEnded⟩ ∈
      about layer.id (LayerReport.ofCalls [(4, [openEnded]), (12, [openEnded])]) := by
    simp [about, LayerReport.ofCalls, about_layer]
  have steady : ¬Strays ⟨12, openEnded⟩ := by
    change ¬(12 : Int32) < 10
    decide
  exact ⟨_, listed, steady⟩

/-- A tile at zoom 4 reports the layer that starts at zoom 10, and the foot of the archive lets it
range from zoom 10 to zoom 4. -/
theorem open_ended_range_inverts :
    (∀ report ∈ LayerReport.ofCalls [(4, [openEnded])], report.layer.Ordered) ∧
      ((ofCalls [(4, [openEnded])]).complete .empty).vectorLayers =
        some [⟨"water", .empty, none, some 10, some 4⟩] ∧
      ¬VectorLayer.Ordered ⟨"water", .empty, none, some 10, some 4⟩ := by
  refine ⟨?_, by decide +kernel, fun ordered => ?_⟩
  · simp [LayerReport.ofCalls, VectorLayer.Ordered, openEnded]
  · exact absurd (ordered 10 rfl 4 rfl) (by decide)

end LayerStats
end TileBindery
