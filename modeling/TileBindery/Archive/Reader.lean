import TileBindery.Archive.EntryStream
import TileBindery.Archive.LineStream

/-!
# Readers of archives

A reader hands out one item a call.  Behind the end of its stream, and behind an error, it gives
nothing more and does not look at the stream again.  The reader of lines looks for one octet at a
time, the last of the separator, and goes on until the whole separator has come by.
-/

namespace TileBindery

/-- Outcomes of reading one item of a stream. -/
inductive Reading (α : Type) where
  /-- The item, and the stream behind it. -/
  | item (value : α) (rest : ByteSource)
  | ended
  | failed (error : ArchiveError)

/-- A reader of a stream, whatever its items. -/
structure StreamReader where
  source : ByteSource
  /-- The end or an error has been met. -/
  done : Bool
  deriving DecidableEq, Repr

namespace StreamReader

variable {α : Type}

def start (source : ByteSource) : StreamReader := ⟨source, false⟩

/-- Hand out the next item, or the error that stands in its place. -/
def next (read : ByteSource → Reading α) (reader : StreamReader) :
    Option (Except ArchiveError α) × StreamReader :=
  if reader.done then (none, reader)
  else
    match read reader.source with
    | .item value rest => (some (.ok value), { reader with source := rest })
    | .ended => (none, { reader with done := true })
    | .failed error => (some (.error error), { reader with done := true })

/-- What a number of calls give. -/
def calls (read : ByteSource → Reading α) :
    Nat → StreamReader → List (Option (Except ArchiveError α))
  | 0, _ => []
  | count + 1, reader =>
      let (item, after) := reader.next read
      item :: calls read count after

end StreamReader

namespace EntryStream

def Next.reading : Next → Reading ArchiveEntry
  | .entry found rest => .item found rest
  | .ended => .ended
  | .failed error => .failed error

/-- Read the entry in front. -/
def read (source : ByteSource) : Reading ArchiveEntry := (next source).reading

end EntryStream

namespace ByteSource

/-- The octets up to the first that equals `stop`, this one included, and those behind it. -/
def through? (stop : UInt8) : Bytes → Option (Bytes × Bytes)
  | [] => none
  | octet :: rest =>
      if octet = stop then some ([octet], rest)
      else (through? stop rest).map fun (front, behind) => (octet :: front, behind)

/-- Hand out the octets up to and including the first that equals `stop`, or all that are left. -/
def readUntil (stop : UInt8) (source : ByteSource) : Except DeviceError (Bytes × ByteSource) :=
  match through? stop source.octets with
  | some (octets, rest) => .ok (octets, { source with octets := rest })
  | none =>
      match source.breakage with
      | some error => .error error
      | none => .ok (source.octets, { source with octets := [] })

theorem eq_append_of_through? {stop : UInt8} {octets front behind : Bytes}
    (h : through? stop octets = some (front, behind)) : octets = front ++ behind := by
  induction octets generalizing front with
  | nil => simp [through?] at h
  | cons octet rest ih =>
      rw [through?] at h
      split at h
      · cases h
        rfl
      · obtain ⟨⟨others, _⟩, found, parts⟩ := Option.map_eq_some_iff.1 h
        cases parts
        rw [ih found, List.cons_append]

theorem octets_of_readUntil {stop : UInt8} {source rest : ByteSource} {octets : Bytes}
    (h : source.readUntil stop = .ok (octets, rest)) :
    source.octets = octets ++ rest.octets ∧ rest.breakage = source.breakage := by
  rw [readUntil] at h
  split at h
  next found =>
    cases h
    exact ⟨eq_append_of_through? found, rfl⟩
  · split at h
    · cases h
    · cases h
      exact ⟨(List.append_nil _).symm, rfl⟩

theorem length_of_readUntil {stop octet : UInt8} {source rest : ByteSource} {octets : Bytes}
    (h : source.readUntil stop = .ok (octet :: octets, rest)) :
    rest.octets.length < source.octets.length := by
  rw [(octets_of_readUntil h).1, List.length_append, List.length_cons]
  omega

end ByteSource

namespace LineStream

/-- Read on behind the octets of a line, up to the first place where they end with the separator,
or to the end of the stream. -/
def readLine (separator : Bytes) (stop : UInt8) (line : Bytes) (source : ByteSource) :
    Except DeviceError (Bytes × ByteSource) :=
  match h : source.readUntil stop with
  | .error error => .error error
  | .ok ([], rest) => .ok (line, rest)
  | .ok (octet :: octets, rest) =>
      have := ByteSource.length_of_readUntil h
      let line := line ++ octet :: octets
      if separator.isSuffixOf line then .ok (line, rest) else readLine separator stop line rest
termination_by source.octets.length

/-- Read the line in front, and its record. -/
def read (options : LineOptions) (source : ByteSource) : Reading LineRecord :=
  let separator := Utf8.encode options.lineSeparator.toList
  match separator.getLast? with
  | none => .failed (.badOption .lineSeparator "")
  | some stop =>
      match readLine separator stop [] source with
      | .error error => .failed (.device error)
      | .ok (line, rest) =>
          if line.isEmpty then .ended
          else
            let line :=
              if separator.isSuffixOf line then line.take (line.length - separator.length) else line
            match record options line with
            | .error error => .failed error
            | .ok found => .item found rest

end LineStream
end TileBindery
