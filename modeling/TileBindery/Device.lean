import TileBindery.Bytes

/-!
# Devices

Files and streams fail in a few ways that messages name.  A source of octets delivers what it holds
and then either ends or breaks.
-/

namespace TileBindery

/-- Reasons why a device refuses an operation. -/
inductive DeviceError where
  | notFound
  | alreadyExists
  /-- A path that leads through a file. -/
  | notADirectory
  /-- A directory where a file is needed. -/
  | isADirectory
  /-- A directory that still has entries. -/
  | directoryNotEmpty
  /-- A name or a path that is too long. -/
  | invalidFilename
  /-- An operation that makes no sense where a path leads. -/
  | invalidInput
  /-- A path with a character that no name can hold. -/
  | nulInPath
  /-- A thing whose contents cannot be mapped into memory. -/
  | unmappable
  /-- A failure that the device describes itself. -/
  | other (text : String)
  deriving DecidableEq, Repr

def DeviceError.message : DeviceError → String
  | .notFound => "<io:NotFound>"
  | .alreadyExists => "<io:AlreadyExists>"
  | .notADirectory => "<io:NotADirectory>"
  | .isADirectory => "<io:IsADirectory>"
  | .directoryNotEmpty => "<io:DirectoryNotEmpty>"
  | .invalidFilename => "<io:InvalidFilename>"
  | .invalidInput => "<io:InvalidInput>"
  | .nulInPath => "file name contained an unexpected NUL byte"
  | .unmappable => "<io:Uncategorized>"
  | .other text => text

/-- A stream of octets that is read from front to back. -/
structure ByteSource where
  octets : Bytes
  /-- What a read behind the last octet fails with; without it the stream ends there. -/
  breakage : Option DeviceError
  deriving DecidableEq, Repr

namespace ByteSource

/-- A stream that ends behind `octets`. -/
def ofBytes (octets : Bytes) : ByteSource := ⟨octets, none⟩

/-- Outcomes of asking for a fixed number of octets. -/
inductive Taken where
  /-- All of them, and what is left. -/
  | all (octets : Bytes) (rest : ByteSource)
  | ended
  | broken (error : DeviceError)

def take (count : Nat) (source : ByteSource) : Taken :=
  match Bytes.take? count source.octets with
  | some (octets, rest) => .all octets { source with octets := rest }
  | none =>
      match source.breakage with
      | some error => .broken error
      | none => .ended

theorem length_of_take {count : Nat} {source rest : ByteSource} {octets : Bytes}
    (h : source.take count = .all octets rest) :
    source.octets = octets ++ rest.octets ∧ octets.length = count := by
  unfold take at h
  split at h
  next octets' rest' taken =>
    cases h
    exact Bytes.length_of_take? taken
  next => split at h <;> cases h

end ByteSource
end TileBindery
