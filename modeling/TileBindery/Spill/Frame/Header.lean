import TileBindery.Device
import TileBindery.Spill.Frame

/-!
# Headers of frames

Behind its magic octets a frame says how far its blocks may reach back, how long its content is,
which dictionary it needs and whether a check value follows.  A reader has no dictionary and a
bounded memory, so it refuses some headers.
-/

namespace TileBindery
namespace Frame

/-- What a reader says about octets that start no frame. -/
def foreign : DeviceError := .other "Unknown frame descriptor"

/-- What a reader says about a frame of a version that it no longer knows. -/
def outdated : DeviceError := .other "Version not supported"

/-- What a reader says about a header with a mark of no meaning. -/
def unsupported : DeviceError := .other "Unsupported frame parameter"

/-- What a reader says about a frame that reaches back too far. -/
def tooWide : DeviceError := .other "Frame requires too much memory for decoding"

/-- What a reader says about a frame that needs a dictionary. -/
def foreignDictionary : DeviceError := .other "Dictionary mismatch"

/-- What a reader says about blocks that it cannot follow. -/
def damaged : DeviceError := .other "Data corruption detected"

/-- What a reader says about blocks with more content than the header tells. -/
def overfull : DeviceError := .other "Destination buffer is too small"

/-- What a reader says about content that differs from its check value. -/
def altered : DeviceError := .other "Restored data doesn't match checksum"

/-- What a reader has to know about a frame. -/
structure Shape where
  /-- The size of the largest block. -/
  limit : Nat
  /-- The size of the content, where the header tells it. -/
  size : Option Nat
  /-- A check value follows the last block. -/
  checked : Bool
  deriving DecidableEq, Repr

/-- The first octet of a header, which tells what else the header holds. -/
structure Descriptor where
  code : Nat

namespace Descriptor

/-- The whole content is in reach of every block. -/
def isSingle (descriptor : Descriptor) : Bool := descriptor.code / 32 % 2 = 1

/-- A check value follows the last block. -/
def isChecked (descriptor : Descriptor) : Bool := descriptor.code / 4 % 2 = 1

def isReserved (descriptor : Descriptor) : Bool := descriptor.code / 8 % 2 = 1

def windowWidth (descriptor : Descriptor) : Nat := if descriptor.isSingle then 0 else 1

/-- Octets that tell the dictionary. -/
def dictionaryWidth (descriptor : Descriptor) : Nat :=
  match descriptor.code % 4 with
  | 0 => 0
  | 1 => 1
  | 2 => 2
  | _ => 4

/-- Octets that tell the size of the content. -/
def sizeWidth (descriptor : Descriptor) : Nat :=
  match descriptor.code / 64 with
  | 0 => if descriptor.isSingle then 1 else 0
  | 1 => 2
  | 2 => 4
  | _ => 8

/-- Octets of the header behind the descriptor. -/
def width (descriptor : Descriptor) : Nat :=
  descriptor.windowWidth + descriptor.dictionaryWidth + descriptor.sizeWidth

/-- The size of the content, where it is told.  Two octets count from 256. -/
def contentSize (descriptor : Descriptor) (fields : Bytes) : Option Nat :=
  let told := Bytes.fromLittleEndian
    (fields.drop (descriptor.windowWidth + descriptor.dictionaryWidth))
  match descriptor.sizeWidth with
  | 0 => none
  | 2 => some (told + 256)
  | _ => some told

/-- The exponent of the window that an octet tells. -/
def windowExponent (octet : UInt8) : Nat := octet.toNat / 8 + 10

/-- How far blocks reach back: an octet's power of two and eighths of it, or over all the
content. -/
def window (descriptor : Descriptor) (fields : Bytes) : Nat :=
  if descriptor.isSingle then (descriptor.contentSize fields).getD 0
  else
    let octet := fields.headD 0
    let power := 2 ^ windowExponent octet
    power + power / 8 * (octet.toNat % 8)

/-- The exponent beyond which a window is out of the question. -/
def maxExponent : Nat := 31

/-- The largest window for which a reader has memory. -/
def maxWindow : Nat := 2 ^ 27 + 1

/-- The shape of a frame, given the octets of the header behind the descriptor. -/
def shape (descriptor : Descriptor) (fields : Bytes) : Except DeviceError Shape :=
  let dictionary := (fields.drop descriptor.windowWidth).take descriptor.dictionaryWidth
  let window := descriptor.window fields
  if descriptor.isReserved then .error unsupported
  else if ¬descriptor.isSingle ∧ maxExponent < windowExponent (fields.headD 0) then
    .error tooWide
  else if Bytes.fromLittleEndian dictionary ≠ 0 then .error foreignDictionary
  else if maxWindow < window then .error tooWide
  else .ok ⟨min window maxBlock, descriptor.contentSize fields, descriptor.isChecked⟩

end Descriptor
end Frame
end TileBindery
