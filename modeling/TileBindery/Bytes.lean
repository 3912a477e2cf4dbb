import TileBindery.Power

/-!
# Byte sequences

Every file, stream and payload of the library is a list of octets.  This module fixes the two
fixed-width integer layouts used on disk and on the wire.  The main statements say that reading a
little-endian field returns what was written into it, up to the width of the field.
-/

namespace TileBindery

abbrev Bytes := List UInt8

namespace Bytes

/-- The `width` least significant octets of `value`, least significant first. -/
def littleEndian : Nat → Nat → Bytes
  | 0, _ => []
  | width + 1, value => UInt8.ofNat value :: littleEndian width (value / 256)

/-- The number whose octets, least significant first, are `octets`. -/
def fromLittleEndian : Bytes → Nat
  | [] => 0
  | octet :: rest => octet.toNat + 256 * fromLittleEndian rest

/-- The `width` least significant octets of `value`, most significant first. -/
def bigEndian (width value : Nat) : Bytes := (littleEndian width value).reverse

@[simp]
theorem length_littleEndian (width value : Nat) : (littleEndian width value).length = width := by
  induction width generalizing value with
  | zero => rfl
  | succ width ih => simp [littleEndian, ih]

theorem fromLittleEndian_littleEndian (width value : Nat) :
    fromLittleEndian (littleEndian width value) = value % 256 ^ width := by
  induction width generalizing value with
  | zero => simp [littleEndian, fromLittleEndian, Nat.mod_one]
  | succ width ih =>
      simp only [littleEndian, fromLittleEndian, ih, Nat.pow_succ]
      rw [Nat.mul_comm (256 ^ width) 256, Nat.mod_mul]
      simp

theorem fromLittleEndian_lt (octets : Bytes) : fromLittleEndian octets < 256 ^ octets.length := by
  induction octets with
  | nil => simp [fromLittleEndian]
  | cons octet rest ih =>
      have := octet.toNat_lt
      simp only [fromLittleEndian, List.length_cons, Nat.pow_succ]
      omega

theorem littleEndian_fromLittleEndian (octets : Bytes) :
    littleEndian octets.length (fromLittleEndian octets) = octets := by
  induction octets with
  | nil => rfl
  | cons octet rest ih =>
      have small := octet.toNat_lt
      have low : UInt8.ofNat (octet.toNat + 256 * fromLittleEndian rest) = octet := by
        rw [← UInt8.toNat_inj, UInt8.toNat_ofNat']
        omega
      have high : (octet.toNat + 256 * fromLittleEndian rest) / 256 = fromLittleEndian rest := by
        omega
      rw [List.length_cons, fromLittleEndian, littleEndian, low, high, ih]

/-- At least `count` octets are there.  No more than these are looked at. -/
def reaches : Nat → Bytes → Bool
  | 0, _ => true
  | _ + 1, [] => false
  | count + 1, _ :: rest => reaches count rest

theorem reaches_iff {count : Nat} {octets : Bytes} :
    reaches count octets = true ↔ count ≤ octets.length := by
  induction octets generalizing count with
  | nil => cases count <;> simp [reaches]
  | cons octet rest ih => cases count <;> simp [reaches, ih]

/-- Split off the first `count` octets, or `none` when fewer are left. -/
def take? (count : Nat) (octets : Bytes) : Option (Bytes × Bytes) :=
  if reaches count octets then some (octets.take count, octets.drop count) else none

theorem take?_eq (count : Nat) (octets : Bytes) :
    take? count octets =
      if count ≤ octets.length then some (octets.take count, octets.drop count) else none := by
  unfold take?
  by_cases h : count ≤ octets.length
  · rw [if_pos (reaches_iff.2 h), if_pos h]
  · rw [if_neg (fun found => h (reaches_iff.1 found)), if_neg h]

theorem take?_append (front rest : Bytes) : take? front.length (front ++ rest) = some (front, rest) := by
  simp [take?_eq]

theorem length_of_take? {count : Nat} {octets front rest : Bytes}
    (h : take? count octets = some (front, rest)) :
    octets = front ++ rest ∧ front.length = count := by
  rw [take?_eq] at h
  split at h
  · simp only [Option.some.injEq, Prod.mk.injEq] at h
    obtain ⟨rfl, rfl⟩ := h
    simp only [List.take_append_drop, List.length_take, true_and]
    omega
  · simp at h

theorem length_rest_le {count : Nat} {octets front rest : Bytes}
    (h : take? count octets = some (front, rest)) : rest.length ≤ octets.length := by
  rw [(length_of_take? h).1, List.length_append]
  exact Nat.le_add_left _ _

theorem length_rest_lt {count : Nat} {octets front rest : Bytes}
    (h : take? (count + 1) octets = some (front, rest)) : rest.length < octets.length := by
  obtain ⟨rfl, length_front⟩ := length_of_take? h
  rw [List.length_append]
  omega

end Bytes
end TileBindery
