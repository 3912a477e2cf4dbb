import TileBindery.Proofs.Disk.Directories
import TileBindery.Spill.Sorter

/-!
# What merging leaves on the disk

A merge removes files of its chunks and changes nothing else: no file is written, and no directory
goes.
-/

namespace TileBindery

theorem Chunk.sheds_dropAll (chunks : List Chunk) (disk : Disk) :
    disk.Sheds (Chunk.dropAll chunks disk) := by
  induction chunks generalizing disk with
  | nil => exact .refl disk
  | cons chunk rest ih => exact (Disk.sheds_dropFile disk _).trans (ih _)

theorem Run.sheds_drop (run : Run) (disk : Disk) : disk.Sheds (run.drop disk) := by
  cases run with
  | chunk file reader => exact Disk.sheds_dropFile disk _
  | memory features => exact .refl disk

namespace Merge

theorem sheds_prime (disk : Disk) (runs : List Run) : disk.Sheds (prime disk runs).2 := by
  induction runs generalizing disk with
  | nil => exact .refl disk
  | cons run rest ih =>
      rw [prime]
      split
      · exact .refl disk
      · exact (Run.sheds_drop _ disk).trans (ih _)
      · exact ih disk

theorem sheds_ofRuns [Codec] (chunks : List Chunk) (residual : List Feature) (disk : Disk) :
    disk.Sheds (ofRuns chunks residual disk).2 := by
  rw [ofRuns]
  split
  · exact Chunk.sheds_dropAll chunks disk
  next runs _ =>
    have primed := sheds_prime disk (runs ++ [.memory residual])
    split
    next failed =>
      rw [failed] at primed
      exact primed.trans (Chunk.sheds_dropAll chunks _)
    next started =>
      rw [started] at primed
      exact primed

theorem sheds_next (merge : Merge) (disk : Disk) : disk.Sheds (merge.next disk).2.2 := by
  rw [next]
  split
  · exact .refl disk
  · split
    · exact .refl disk
    · split
      · exact .refl disk
      next split _ =>
        unfold pop
        dsimp only
        split
        · exact .refl disk
        · exact Run.sheds_drop _ disk
        · exact .refl disk

theorem sheds_drain (merge : Merge) (disk : Disk) : disk.Sheds (merge.drain disk).2.2 := by
  induction left : merge.unread using Nat.strongRecOn generalizing merge disk with
  | ind count ih =>
      have first := sheds_next merge disk
      rw [drain]
      split
      next ended =>
        rw [ended] at first
        exact first
      next item after behind handed =>
        rw [handed] at first
        exact first.trans (ih _ (left ▸ unread_next_lt handed) after behind rfl)

end Merge

theorem Sorter.sheds_sort [Codec] (sorter : Sorter) (disk : Disk) :
    disk.Sheds (sorter.sort disk).2.2 := by
  rw [sort]
  split
  · exact .refl disk
  · exact .refl disk
  · exact Merge.sheds_ofRuns _ _ disk

end TileBindery
