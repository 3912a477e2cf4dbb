import TileBindery.Bytes

/-!
# UTF-8

Writing characters as octets, and reading octets that may be ill formed.  A reader either stops at
the first fault and says where it lies, or replaces every maximal ill-formed part by the replacement
character.
-/

namespace TileBindery
namespace Utf8

def encodeChar (c : Char) : Bytes :=
  let n := c.toNat
  if n < 0x80 then [UInt8.ofNat n]
  else if n < 0x800 then [UInt8.ofNat (0xC0 + n / 64), UInt8.ofNat (0x80 + n % 64)]
  else if n < 0x10000 then
    [UInt8.ofNat (0xE0 + n / 4096), UInt8.ofNat (0x80 + n / 64 % 64), UInt8.ofNat (0x80 + n % 64)]
  else
    [UInt8.ofNat (0xF0 + n / 262144), UInt8.ofNat (0x80 + n / 4096 % 64),
      UInt8.ofNat (0x80 + n / 64 % 64), UInt8.ofNat (0x80 + n % 64)]

def encode (text : List Char) : Bytes := text.flatMap encodeChar

/-- What stands at the front of a sequence of octets. -/
inductive Front where
  | char (c : Char) (size : Nat) (rest : Bytes)
  /-- `size` octets that start no character, and what follows them. -/
  | illFormed (size : Nat) (rest : Bytes)
  /-- The start of a character that the sequence does not finish. -/
  | unfinished

/-- An inclusive range of octet values. -/
abbrev OctetRange := Nat × Nat

def continuation : OctetRange := (0x80, 0xBF)

/-- The ranges of the octets that must follow the first one, with the first one's share of the
character, or `none` when no character starts with it. -/
def lead (octet : Nat) : Option (Nat × List OctetRange) :=
  if octet < 0x80 then some (octet, [])
  else if octet < 0xC2 then none
  else if octet < 0xE0 then some (octet - 0xC0, [continuation])
  else if octet = 0xE0 then some (0, [(0xA0, 0xBF), continuation])
  else if octet = 0xED then some (0xD, [(0x80, 0x9F), continuation])
  else if octet < 0xF0 then some (octet - 0xE0, [continuation, continuation])
  else if octet = 0xF0 then some (0, [(0x90, 0xBF), continuation, continuation])
  else if octet < 0xF4 then some (octet - 0xF0, [continuation, continuation, continuation])
  else if octet = 0xF4 then some (4, [(0x80, 0x8F), continuation, continuation])
  else none

/-- Read the octets that follow a first one.  `value` and `size` describe what was read so far. -/
def follow : List OctetRange → (value size : Nat) → Bytes → Front
  | [], value, size, rest => .char (Char.ofNat value) size rest
  | _ :: _, _, _, [] => .unfinished
  | range :: ranges, value, size, octet :: rest =>
      if range.1 ≤ octet.toNat ∧ octet.toNat ≤ range.2 then
        follow ranges (value * 64 + octet.toNat % 64) (size + 1) rest
      else .illFormed size (octet :: rest)

/-- What stands at the front of `octet :: rest`. -/
def front (octet : UInt8) (rest : Bytes) : Front :=
  match lead octet.toNat with
  | none => .illFormed 1 rest
  | some (value, ranges) => follow ranges value 1 rest

def Front.rest : Front → Bytes
  | .char _ _ rest => rest
  | .illFormed _ rest => rest
  | .unfinished => []

theorem length_rest_follow_le (ranges : List OctetRange) (value size : Nat) (octets : Bytes) :
    (follow ranges value size octets).rest.length ≤ octets.length := by
  induction ranges generalizing value size octets with
  | nil => simp [follow, Front.rest]
  | cons range ranges ih =>
      cases octets with
      | nil => simp [follow, Front.rest]
      | cons octet octets =>
          simp only [follow]
          split
          · have := ih (value * 64 + octet.toNat % 64) (size + 1) octets
            simp only [List.length_cons]
            omega
          · simp [Front.rest]

theorem length_rest_front_le (octet : UInt8) (octets : Bytes) :
    (front octet octets).rest.length ≤ octets.length := by
  unfold front
  split
  · simp [Front.rest]
  · exact length_rest_follow_le _ _ _ _

/-- Where and how octets fail to be UTF-8. -/
structure Fault where
  /-- Octets in front of the fault, all of them well formed. -/
  validUpTo : Nat
  /-- Size of the ill-formed part, or `none` when the sequence ends inside a character. -/
  size : Option Nat
  deriving DecidableEq, Repr

def Fault.message (fault : Fault) : String :=
  match fault.size with
  | some size =>
      "invalid utf-8 sequence of " ++ toString size ++ " bytes from index " ++
        toString fault.validUpTo
  | none => "incomplete utf-8 byte sequence from index " ++ toString fault.validUpTo

/-- The text of `octets`, which stand behind `offset` octets already read. -/
def decodeFrom (offset : Nat) (octets : Bytes) : Except Fault (List Char) :=
  match octets with
  | [] => .ok []
  | octet :: rest =>
      match h : front octet rest with
      | .char c size left =>
          have : left.length ≤ rest.length := by
            simpa [h, Front.rest] using length_rest_front_le octet rest
          (decodeFrom (offset + size) left).map (c :: ·)
      | .illFormed size _ => .error ⟨offset, some size⟩
      | .unfinished => .error ⟨offset, none⟩
termination_by octets.length

/-- The text of `octets`, or the first fault in them. -/
def decode (octets : Bytes) : Except Fault (List Char) := decodeFrom 0 octets

def replacement : Char := Char.ofNat 0xFFFD

/-- The text of `octets` with every maximal ill-formed part replaced. -/
def decodeLossy (octets : Bytes) : List Char :=
  match octets with
  | [] => []
  | octet :: rest =>
      match h : front octet rest with
      | .char c _ left =>
          have : left.length ≤ rest.length := by
            simpa [h, Front.rest] using length_rest_front_le octet rest
          c :: decodeLossy left
      | .illFormed _ left =>
          have : left.length ≤ rest.length := by
            simpa [h, Front.rest] using length_rest_front_le octet rest
          replacement :: decodeLossy left
      | .unfinished => [replacement]
termination_by octets.length

end Utf8
end TileBindery
