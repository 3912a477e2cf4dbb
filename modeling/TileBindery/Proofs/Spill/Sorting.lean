import TileBindery.Proofs.Spill.FrameRoundTrip
import TileBindery.Proofs.Spill.SorterState

/-!
# Sorting

Whatever is added to a sorter comes out of its merge in key order, and features with equal keys in
the order in which they were added.  Where the buffer was cut into chunks, and how these were
written, does not show.
-/

namespace TileBindery
namespace Sorter

/-- A sorter that has accepted features can be sorted, and draining its merge gives them in stable
key order: all of them, each as often as it was added, whatever the settings are.  If they ask for
packed chunks, nothing may be lost by that. -/
theorem sort_hands_out_in_key_order [Codec] {directory : String} {config : SpillConfig}
    {disk begun filled : Disk} {sorter full : Sorter} {features : List Feature} {count : Nat}
    (lossless : config.compress = true → Codec.Lossless) (bytes : config.chunkBytes < 2 ^ 64)
    (created : create directory config disk = (.ok sorter, begun))
    (accepted : sorter.addAll features begun = (count, .ok (), full, filled)) :
    ∃ merge after behind, full.sort filled = (.ok merge, after, behind) ∧
      (merge.drain behind).1 = (inKeyOrder features).map .ok ∧
      (inKeyOrder features).Perm features ∧
      ((inKeyOrder features).Pairwise fun a b => a.key ≤ b.key) ∧
      ∀ key, (inKeyOrder features).filter (·.key = key) = features.filter (·.key = key) := by
  obtain ⟨valid, rfl⟩ := eq_fresh_of_create created
  obtain ⟨holds, kept⟩ := (holds_fresh begun valid).addAll bytes accepted
  rw [List.nil_append] at holds
  have full_lossless : full.config.compress = true → Codec.Lossless := by
    rw [kept]
    exact lossless
  obtain ⟨merge, after, behind, sorted, -, yields⟩ := holds.sort full_lossless
  have order := stableOrder_inKeyOrder features
  refine ⟨merge, after, behind, sorted, Merge.drain_of_yields yields, order.perm, ?_, ?_⟩
  · exact order.ascending.imp UInt64.le_iff_toNat_le.2
  · intro key
    have ties := order.ties key.toNat
    simpa only [keyOf, UInt64.toNat_inj] using ties

/-- Settings that pack every feature into a chunk of its own. -/
def eagerConfig : SpillConfig :=
  { SpillConfig.standard with chunkFeatures := some 1, compress := true }

/-- A disk with nothing but the directory of a sorter. -/
def runDisk : Disk := ⟨[(["run"], .directory)], []⟩

/-- The chunk of a number that such settings make of a feature with a payload of one octet. -/
def eagerChunk (number : Nat) : Chunk := ⟨Chunk.chunkPath "/run" number, number, 1, 58⟩

/-- The octets of such a chunk in frames of kept blocks. -/
def eagerOctets (number : UInt64) (feature : Feature) : Bytes :=
  (ChunkHeader.ofCounts number 1 true).encode ++ Frame.encode (ChunkRecord.encode feature)

/-- A disk with the file of one chunk. -/
def oneChunk (octets : Bytes) : Disk :=
  ⟨(["run", "chunk-000000.chunk"], .file 0) :: runDisk.entries, [octets]⟩

/-- A disk with the files of two chunks. -/
def twoChunks (first second : Bytes) : Disk :=
  ⟨(["run", "chunk-000001.chunk"], .file 1) :: (oneChunk first).entries, [first, second]⟩

theorem inKeyOrder_singleton (feature : Feature) : inKeyOrder [feature] = [feature] :=
  inKeyOrder_of_ascending (List.pairwise_singleton _ _)

section

attribute [local instance] Frame.codec

theorem add_eager :
    (fresh "/run" eagerConfig).add ⟨5, [1]⟩ runDisk =
      (.ok (), ((fresh "/run" eagerConfig).push ⟨5, [1]⟩).stored (eagerChunk 0),
        oneChunk (eagerOctets 0 ⟨5, [1]⟩)) := by
  have wrote : ((fresh "/run" eagerConfig).push ⟨5, [1]⟩).writeBuffer runDisk =
      (.ok (eagerChunk 0), oneChunk (eagerOctets 0 ⟨5, [1]⟩)) := by
    rw [writeBuffer]
    change Chunk.write "/run" 0 (inKeyOrder [⟨5, [1]⟩]) eagerConfig runDisk = _
    rw [inKeyOrder_singleton]
    decide +kernel
  rw [add_of_full runDisk (by decide) rfl (by decide), spill_eq, wrote]

theorem addAll_eager :
    ∃ count full, (fresh "/run" eagerConfig).addAll [⟨5, [1]⟩, ⟨3, [2]⟩] runDisk =
      (count, .ok (), full,
        twoChunks (eagerOctets 0 ⟨5, [1]⟩) (eagerOctets 1 ⟨3, [2]⟩)) := by
  let begun := oneChunk (eagerOctets 0 ⟨5, [1]⟩)
  let second := (((fresh "/run" eagerConfig).push ⟨5, [1]⟩).stored (eagerChunk 0)).push ⟨3, [2]⟩
  have wrote : second.writeBuffer begun =
      (.ok (eagerChunk 1), twoChunks (eagerOctets 0 ⟨5, [1]⟩) (eagerOctets 1 ⟨3, [2]⟩)) := by
    rw [writeBuffer]
    change Chunk.write "/run" 1 (inKeyOrder [⟨3, [2]⟩]) eagerConfig begun = _
    rw [inKeyOrder_singleton]
    decide +kernel
  refine ⟨2, second.stored (eagerChunk 1), ?_⟩
  simp only [addAll, add_eager]
  rw [add_of_full begun (by decide) rfl (by decide), spill_eq, wrote]

theorem sort_hands_out_in_key_order_eager :
    ∃ sorter begun count full filled merge after behind,
      create "/run" eagerConfig .empty = (.ok sorter, begun) ∧
      sorter.addAll [⟨5, [1]⟩, ⟨3, [2]⟩] begun = (count, .ok (), full, filled) ∧
      full.sort filled = (.ok merge, after, behind) ∧
      (merge.drain behind).1 = [.ok ⟨3, [2]⟩, .ok ⟨5, [1]⟩] := by
  have created : create "/run" eagerConfig .empty = (.ok (fresh "/run" eagerConfig), runDisk) := by
    rfl
  obtain ⟨count, full, accepted⟩ := addAll_eager
  obtain ⟨merge, after, behind, sorted, drained, -⟩ :=
    sort_hands_out_in_key_order (fun _ => Frame.lossless_codec) (by decide) created accepted
  have order : inKeyOrder [⟨5, [1]⟩, ⟨3, [2]⟩] = [⟨3, [2]⟩, ⟨5, [1]⟩] :=
    inKeyOrder_swap (by decide)
  refine ⟨_, _, count, full, _, merge, after, behind, created, accepted, sorted, ?_⟩
  rw [drained, order]
  rfl

end

end Sorter
end TileBindery
