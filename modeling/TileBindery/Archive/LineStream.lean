import TileBindery.Archive.Line

/-!
# Streams of lines

A text archive is cut at every place where the line separator stands.  A rest without separator is
the last line.  Reading stops at the first line that is no text or no tile.
-/

namespace TileBindery
namespace LineStream

/-- Outcomes of reading the next line. -/
inductive Next where
  /-- A line without its separator, and the stream behind it. -/
  | line (octets : Bytes) (rest : ByteSource)
  | ended
  | failed (error : ArchiveError)

def next (separator : Bytes) (source : ByteSource) : Next :=
  if separator.isEmpty then .failed (.badOption .lineSeparator "")
  else
    match Separator.cut? separator source.octets with
    | some (line, rest) => .line line { source with octets := rest }
    | none =>
        match source.breakage with
        | some error => .failed (.device error)
        | none =>
            if source.octets.isEmpty then .ended
            else .line source.octets { source with octets := [] }

theorem length_of_next {separator line : Bytes} {source rest : ByteSource}
    (h : next separator source = .line line rest) :
    rest.octets.length < source.octets.length := by
  unfold next at h
  split at h
  · simp at h
  next present =>
    have := List.length_pos_iff.2 (by simpa using present)
    split at h
    next found =>
      cases h
      rw [Separator.eq_append_of_cut? found, List.length_append, List.length_append]
      simp only
      omega
    · split at h
      · simp at h
      · split at h
        · simp at h
        next nonempty =>
          cases h
          exact List.length_pos_iff.2 (by simpa using nonempty)

/-- The record of a line that was cut out of a stream. -/
def record (options : LineOptions) (line : Bytes) : Except ArchiveError LineRecord :=
  match Utf8.decode line with
  | .error fault => .error (.decode (.lineNotText fault))
  | .ok text => (Line.parse options text).mapError .decode

/-- Everything a reader gets from a stream: its records in order, and the error they stop at. -/
def items (options : LineOptions) (source : ByteSource) :
    List (Except ArchiveError LineRecord) :=
  match h : next (Utf8.encode options.lineSeparator.toList) source with
  | .ended => []
  | .failed error => [.error error]
  | .line line rest =>
      have := length_of_next h
      match record options line with
      | .error error => [.error error]
      | .ok found => .ok found :: items options rest
termination_by source.octets.length

end LineStream
end TileBindery
