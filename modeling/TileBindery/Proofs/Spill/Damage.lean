import Mathlib.Data.List.Infix
import TileBindery.Proofs.Spill.ChunkFormat
import TileBindery.Proofs.Spill.Fraying

/-!
# Damaged chunk files

A plain chunk file that is cut anywhere, or altered so that no record stands where one of its records
stood, still gives back the records in front.  So a sorter whose chunk files are damaged frays.
-/

namespace TileBindery

namespace ChunkRecord

theorem Leads.of_prefix {front octets : Bytes} {features : List Feature}
    (leads : Leads front features) (cut : front <+: octets) : Leads octets features := by
  obtain ⟨records, encoded, before⟩ := leads
  exact ⟨records, encoded, before.trans cut⟩

/-- Of two runs of records at the front of octets the shorter one is a front of the other. -/
theorem Leads.prefix_of_length_le {octets : Bytes} {run others : List Feature}
    (first : Leads octets run) (second : Leads octets others) (le : run.length ≤ others.length) :
    run <+: others := by
  induction run generalizing octets others with
  | nil => exact List.nil_prefix
  | cons feature rest ih =>
      cases others with
      | nil => simp at le
      | cons other others =>
          obtain ⟨fits, behind, rfl, leads⟩ := leads_cons.1 first
          obtain ⟨other_fits, other_behind, shape, other_leads⟩ := leads_cons.1 second
          obtain ⟨rfl, rfl⟩ := encode_append_inj fits other_fits shape
          exact List.cons_prefix_cons.2
            ⟨rfl, ih leads other_leads (Nat.le_of_succ_le_succ le)⟩

/-- A run of records ends where none stands. -/
theorem Leads.prefix_of_stop {rest : Bytes} {front run : List Feature}
    (fits : ∀ feature ∈ front, feature.payload.length ≤ maxPayload)
    (none : ∀ feature behind, feature.payload.length ≤ maxPayload →
      rest ≠ encode feature ++ behind)
    (leads : Leads (front.flatMap encode ++ rest) run) : run <+: front := by
  induction front generalizing run with
  | nil =>
      cases run with
      | nil => exact List.nil_prefix
      | cons feature others =>
          obtain ⟨own_fits, behind, shape, -⟩ := leads_cons.1 leads
          exact absurd shape (none feature behind own_fits)
  | cons feature front ih =>
      cases run with
      | nil => exact List.nil_prefix
      | cons other others =>
          obtain ⟨other_fits, behind, shape, other_leads⟩ := leads_cons.1 leads
          rw [List.flatMap_cons, List.append_assoc] at shape
          obtain ⟨rfl, rfl⟩ := encode_append_inj (fits feature List.mem_cons_self) other_fits shape
          refine List.cons_prefix_cons.2 ⟨rfl, ih (fun each member => ?_) other_leads⟩
          exact fits each (List.mem_cons_of_mem _ member)

end ChunkRecord

namespace Chunk

open ChunkRecord

/-- The octets of a chunk file have been damaged. -/
inductive Damaged (octets : Bytes) (features : List Feature) (damaged : Bytes) : Prop where
  /-- They have been cut somewhere. -/
  | cut (front : damaged <+: octets)
  /-- Behind some of the records stands none any more. -/
  | altered {front : List Feature} {rest : Bytes} (kept : front <+: features)
      (shape : damaged = octets.take ChunkHeader.size ++ (front.flatMap ChunkRecord.encode ++ rest))
      (none : ∀ (feature : Feature) behind, feature.payload.length ≤ maxPayload →
        rest ≠ ChunkRecord.encode feature ++ behind)

variable {disk other : Disk} {chunk : Chunk} {octets damaged : Bytes} {features : List Feature}

/-- What has been damaged begins as before. -/
theorem Damaged.take_header (damage : Damaged octets features damaged)
    (spells : Spells octets features) :
    damaged.take ChunkHeader.size <+: octets.take ChunkHeader.size := by
  cases damage with
  | cut front => exact front.take _
  | altered kept shape none =>
      rw [shape, List.take_left' (List.length_take_of_le spells.header)]

/-- No other records have taken the place of those that are gone. -/
theorem Damaged.prefix_of_leads (damage : Damaged octets features damaged)
    (spells : Spells octets features)
    (fits : ∀ feature ∈ features, feature.payload.length ≤ maxPayload) {run : List Feature}
    (leads : Leads (damaged.drop ChunkHeader.size) run) (few : run.length ≤ features.length) :
    run <+: features := by
  cases damage with
  | cut front => exact (leads.of_prefix (front.drop _)).prefix_of_length_le spells.records few
  | altered kept shape none =>
      rw [shape, List.drop_left' (List.length_take_of_le spells.header)] at leads
      exact (leads.prefix_of_stop (fun feature member => fits feature (kept.subset member))
        none).trans kept

/-- A damaged file gives back a front of what it gave back before. -/
theorem frontOf_of_damaged [Codec] (spells : Spells octets features)
    (fits : ∀ feature ∈ features, feature.payload.length ≤ maxPayload)
    (plain : (ChunkHeader.decode (octets.take ChunkHeader.size)).isCompressed = false)
    (damage : Damaged octets features damaged)
    (found : other.read (Path.ofText chunk.path) = .ok damaged) :
    (chunk.contents other).FrontOf features := by
  by_cases long : ChunkHeader.size ≤ damaged.length
  · have header : damaged.take ChunkHeader.size = octets.take ChunkHeader.size :=
      (damage.take_header spells).eq_of_length (by
        rw [List.length_take_of_le long, List.length_take_of_le spells.header])
    have count : announced damaged = features.length := by
      rw [announced, header, if_pos ⟨long, spells.known⟩, spells.count]
    obtain ⟨run, ending⟩ := contents_of_read found fun _ => by rw [header, plain]
    rw [count] at run
    have front := damage.prefix_of_leads spells fits run.leads run.few
    refine ⟨front, fun sound => ?_⟩
    rcases ending with ⟨-, whole⟩ | ⟨⟨_, fault⟩, -⟩
    · exact front.eq_of_length (whole.announced.symm.trans count)
    · rw [sound] at fault
      cases fault
  · obtain ⟨_, shape⟩ := contents_of_unknown found fun known => long known.1
    rw [shape]
    exact ⟨List.nil_prefix, by simp⟩

/-- A plain chunk file is its header and the records of its slice in key order. -/
theorem Holds.read_plain [Codec] {directory : String} {config : SpillConfig} {slice : List Feature}
    (holds : chunk.Holds directory config disk slice) (plain : config.compress = false)
    (fits : ∀ feature ∈ slice, feature.payload.length ≤ maxPayload) :
    disk.read (Path.ofText chunk.path) = .ok
      ((ChunkHeader.ofCounts (UInt64.ofNat chunk.number)
          (UInt64.ofNat (Sorter.inKeyOrder slice).length) false).encode ++
        (Sorter.inKeyOrder slice).flatMap ChunkRecord.encode) := by
  obtain ⟨octets, encoded, found⟩ := holds.stored
  have order := Sorter.stableOrder_inKeyOrder slice
  rw [encode_of_fits _ _ fun feature member => fits feature (order.mem_iff.1 member), plain,
    if_neg Bool.false_ne_true] at encoded
  rw [found, ← Except.ok.inj encoded]

/-- A plain chunk spells the features of its slice in key order. -/
theorem Holds.spells [Codec] {directory : String} {config : SpillConfig} {slice : List Feature}
    (holds : chunk.Holds directory config disk slice) (plain : config.compress = false)
    (fits : ∀ feature ∈ slice, feature.payload.length ≤ maxPayload) :
    ∃ octets, disk.read (Path.ofText chunk.path) = .ok octets ∧
      Spells octets (Sorter.inKeyOrder slice) ∧
      (ChunkHeader.decode (octets.take ChunkHeader.size)).isCompressed = false := by
  have contents := holds.contents (SpillConfig.lossless_of_plain plain) fits
  have found := holds.read_plain plain fits
  have header {rest : Bytes} (number count : UInt64) :
      (ChunkHeader.decode (((ChunkHeader.ofCounts number count false).encode ++ rest).take
        ChunkHeader.size)).isCompressed = false := by
    rw [List.take_left' (ChunkHeader.length_encode _), ChunkHeader.decode_encode,
      ChunkHeader.isCompressed_ofCounts]
  refine ⟨_, found, ?_, header _ _⟩
  rcases (contents_of_read found fun _ => header _ _).2 with ⟨-, spells⟩ | ⟨⟨_, fault⟩, -⟩
  · rwa [contents] at spells
  · rw [contents] at fault
    cases fault

end Chunk

namespace Sorter

/-- Every chunk of a sorter holds a slice of features that fit. -/
theorem Holds.exists_slice [Codec] {sorter : Sorter} {disk : Disk} {features : List Feature}
    (holds : sorter.Holds disk features) {chunk : Chunk} (member : chunk ∈ sorter.chunks) :
    ∃ slice, chunk.Holds sorter.directory sorter.config disk slice ∧
      ∀ feature ∈ slice, feature.payload.length ≤ ChunkRecord.maxPayload := by
  obtain ⟨slices, stored, whole⟩ := holds.slices
  obtain ⟨slice, slice_mem, own⟩ := exists_right_of_forall₂ stored member
  refine ⟨slice, own, fun feature feature_mem => holds.fits feature ?_⟩
  rw [← whole]
  exact List.mem_append_left _ (List.mem_flatten_of_mem slice_mem feature_mem)

/-- A sorter whose plain chunk files are damaged frays. -/
theorem Holds.frays_of_damaged [Codec] {sorter : Sorter} {disk other : Disk} {features : List Feature}
    (holds : sorter.Holds disk features) (plain : sorter.config.compress = false)
    (damaged : ∀ chunk ∈ sorter.chunks, ∀ octets,
      disk.read (Path.ofText chunk.path) = .ok octets →
      ∃ left, other.read (Path.ofText chunk.path) = .ok left ∧
        Chunk.Damaged octets (chunk.contents disk).features left) :
    sorter.Frays other features := by
  have lossless := SpillConfig.lossless_of_plain plain
  refine holds.frays lossless fun chunk member => ?_
  obtain ⟨slice, own, fits⟩ := holds.exists_slice member
  obtain ⟨octets, found, spells, header⟩ := own.spells plain fits
  obtain ⟨left, found_left, damage⟩ := damaged chunk member octets found
  rw [own.contents lossless fits] at damage ⊢
  refine Chunk.frontOf_of_damaged spells (fun feature feature_mem => ?_) header damage found_left
  exact fits feature ((stableOrder_inKeyOrder slice).mem_iff.1 feature_mem)

end Sorter
end TileBindery
