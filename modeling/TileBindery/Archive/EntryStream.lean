import TileBindery.Archive.EntryFormat

/-!
# Streams of entries

A binary archive is a stream of entries, each behind its length.  A stream that ends between two
entries is complete; one that ends anywhere else is damaged, and reading stops at the first damage.
-/

namespace TileBindery
namespace EntryStream

/-- The longest entry that is read. -/
def maxEntry : Nat := 2 ^ 30

/-- Outcomes of reading the length of the next entry. -/
inductive Length where
  /-- The length, and the stream behind it. -/
  | found (length : Nat) (rest : ByteSource)
  /-- The stream ends in front of it. -/
  | ended
  | failed (error : ArchiveError)

/-- Read a length of at most ten octets from the octet with number `index` on.  The length is held
in 64 bits: an octet adds seven bits above those already read, and bits above the 64th are lost. -/
def readLengthFrom (index value : Nat) (source : ByteSource) : (limit : Nat) → Length
  | 0 => .failed (.decode .longLength)
  | limit + 1 =>
      match source.octets with
      | [] =>
          match source.breakage with
          | some error => .failed (.device error)
          | none => if index = 0 then .ended else .failed (.decode .cutLength)
      | octet :: rest =>
          let value := (value + octet.toNat % 128 * 2 ^ (7 * index)) % 2 ^ 64
          let source := { source with octets := rest }
          if octet.toNat < 128 then .found value source
          else readLengthFrom (index + 1) value source limit

/-- Read the length of the next entry. -/
def readLength (source : ByteSource) : Length := readLengthFrom 0 0 source 10

theorem length_of_readLengthFrom {index value limit length : Nat} {source rest : ByteSource}
    (h : readLengthFrom index value source limit = .found length rest) :
    rest.octets.length < source.octets.length := by
  induction limit generalizing index value source with
  | zero => simp [readLengthFrom] at h
  | succ limit ih =>
      unfold readLengthFrom at h
      split at h
      · split at h
        · simp at h
        · split at h <;> simp at h
      next octet octets shape =>
        simp only at h
        rw [shape, List.length_cons]
        split at h
        · cases h
          simp
        · have := ih h
          simp only at this
          omega

/-- Outcomes of reading the next entry. -/
inductive Next where
  /-- The entry, and the stream behind it. -/
  | entry (entry : ArchiveEntry) (rest : ByteSource)
  | ended
  | failed (error : ArchiveError)

def next (source : ByteSource) : Next :=
  match readLength source with
  | .ended => .ended
  | .failed error => .failed error
  | .found length rest =>
      if maxEntry < length then .failed (.decode (.entryTooLarge length))
      else
        match rest.take length with
        | .ended => .failed (.decode (.cutEntry length))
        | .broken error => .failed (.device error)
        | .all octets rest =>
            match EntryFormat.readEntryOctets octets with
            | .error fault => .failed (.decode (.wire fault))
            | .ok entry => .entry entry rest

theorem length_of_next {source rest : ByteSource} {entry : ArchiveEntry}
    (h : next source = .entry entry rest) : rest.octets.length < source.octets.length := by
  unfold next at h
  split at h
  · simp at h
  · simp at h
  next length behind found =>
    have shorter := length_of_readLengthFrom found
    split at h
    · simp at h
    split at h
    · simp at h
    · simp at h
    next octets left taken =>
      have parts := (ByteSource.length_of_take taken).1
      split at h
      · simp at h
      · cases h
        rw [parts, List.length_append] at shorter
        omega

/-- Everything a reader gets from a stream: its entries in order, and the error they stop at. -/
def items (source : ByteSource) : List (Except ArchiveError ArchiveEntry) :=
  match h : next source with
  | .ended => []
  | .failed error => [.error error]
  | .entry entry rest =>
      have := length_of_next h
      .ok entry :: items rest
termination_by source.octets.length

end EntryStream
end TileBindery
