import TileBindery.Disk.Basic

/-!
# Reading files through a buffer

An open file is read in large pieces.  What has been read ahead stays as it was, whatever happens to
the file; what lies behind it is read as the file is by then.  The main statement says that on a
file that does not change, the buffer cannot be told: octets are handed out in the order in which
the file holds them.
-/

namespace TileBindery

/-- An open file that is read from front to back through a buffer. -/
structure FileReader where
  number : Nat
  /-- Position of the first octet that has not been read ahead. -/
  position : Nat
  /-- Octets read ahead and not yet handed out. -/
  pending : Bytes
  deriving DecidableEq, Repr

namespace FileReader

/-- The most octets that are read ahead. -/
def capacity : Nat := 262144

/-- A reader at the start of a file. -/
def ofNumber (number : Nat) : FileReader := ⟨number, 0, []⟩

/-- The octets of a file that a reader would hand out if the file did not change. -/
def unread (reader : FileReader) (disk : Disk) : Bytes :=
  reader.pending ++ (disk.contents reader.number).drop reader.position

/-- Hand out octets of which `missing` have still to be read, behind those that are pending. -/
def fetch (missing : Nat) (disk : Disk) (reader : FileReader) : Option Bytes × FileReader :=
  let found := ((disk.contents reader.number).drop reader.position).take (max capacity missing)
  let position := reader.position + found.length
  match Bytes.take? missing found with
  | none => (none, { reader with position, pending := [] })
  | some (octets, ahead) =>
      (some (reader.pending ++ octets), { reader with position, pending := ahead })

/-- Hand out the next `count` octets.  A file that ends before them has nothing left. -/
def take (count : Nat) (disk : Disk) (reader : FileReader) : Option Bytes × FileReader :=
  match Bytes.take? count reader.pending with
  | some (octets, pending) => (some octets, { reader with pending })
  | none => reader.fetch (count - reader.pending.length) disk

theorem take_append_drop_length (size : Nat) (octets : Bytes) :
    octets.take size ++ octets.drop (octets.take size).length = octets := by
  rcases Nat.le_total size octets.length with short | long
  · rw [List.length_take, Nat.min_eq_left short, List.take_append_drop]
  · rw [List.take_of_length_le long, List.drop_length, List.append_nil]

theorem unread_take {count : Nat} {disk : Disk} {reader after : FileReader} {octets : Bytes}
    (h : reader.take count disk = (some octets, after)) :
    reader.unread disk = octets ++ after.unread disk ∧ octets.length = count := by
  unfold take at h
  split at h
  next front pending taken =>
    cases h
    have shape := Bytes.length_of_take? taken
    simp [unread, shape.1, shape.2]
  next short =>
    have fewer : reader.pending.length < count := by
      rw [Bytes.take?_eq] at short
      split at short
      · simp at short
      · omega
    unfold fetch at h
    simp only at h
    split at h
    · simp at h
    next front ahead taken =>
      cases h
      have shape := Bytes.length_of_take? taken
      constructor
      · simp only [unread, List.append_assoc]
        congr 1
        rw [← List.append_assoc, ← shape.1, ← List.drop_drop, take_append_drop_length]
      · simp only [List.length_append, shape.2]
        omega

end FileReader
end TileBindery
