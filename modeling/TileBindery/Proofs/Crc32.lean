import TileBindery.Crc32

/-!
# What a check value tells

The register of the check is linear: the register of a sum is the sum of the registers.  As shifting
loses nothing, registers that differ once differ from then on, and the last four octets can be told
from the register behind them.  The main statement says that a change of up to four octets in a row
changes the check value, whatever stands around them.
-/

namespace TileBindery
namespace Crc32

/-! ### Shifting -/

/-- What a shift adds to the half of a register. -/
def carry (register : UInt32) : UInt32 := if register.toNat % 2 = 1 then polynomial else 0

theorem shift_eq (register : UInt32) : shift register = register >>> 1 ^^^ carry register := by
  have odd : register &&& 1 = 1 ↔ register.toNat % 2 = 1 := by
    rw [← UInt32.toNat_inj, UInt32.toNat_and, ← Nat.and_one_is_mod]
    rfl
  rw [shift, carry]
  simp only [odd]
  split
  · rfl
  · exact UInt32.xor_zero.symm

theorem carry_xor (a b : UInt32) : carry (a ^^^ b) = carry a ^^^ carry b := by
  have low : (a.toNat ^^^ b.toNat) % 2 = a.toNat % 2 ^^^ b.toNat % 2 :=
    Nat.xor_mod_two_pow (n := 1)
  simp only [carry, UInt32.toNat_xor, low]
  rcases Nat.mod_two_eq_zero_or_one a.toNat with a_low | a_low <;>
    rcases Nat.mod_two_eq_zero_or_one b.toNat with b_low | b_low <;>
    rw [a_low, b_low] <;> rfl

theorem shift_xor (a b : UInt32) : shift (a ^^^ b) = shift a ^^^ shift b := by
  rw [shift_eq, shift_eq, shift_eq, UInt32.shiftRight_xor, carry_xor]
  ac_rfl

/-- Half a register has its highest bit clear, but the polynomial has not, so nothing but zero is
shifted to zero. -/
theorem eq_zero_of_shift {register : UInt32} (zero : shift register = 0) : register = 0 := by
  rw [shift_eq, UInt32.xor_eq_zero_iff] at zero
  have half : (register >>> 1).toNat = register.toNat / 2 := UInt32.toNat_shiftRight _ _
  have small := register.toNat_lt
  rw [zero, carry] at half
  rw [← UInt32.toNat_inj]
  split at half
  · have high : polynomial.toNat = 0xEDB88320 := rfl
    omega
  · have none : (0 : UInt32).toNat = 0 := rfl
    omega

theorem shifts_xor (count : Nat) (a b : UInt32) :
    shifts count (a ^^^ b) = shifts count a ^^^ shifts count b := by
  induction count generalizing a b with
  | zero => rfl
  | succ count ih => rw [shifts, shift_xor, ih, ← shifts, ← shifts]

theorem eq_zero_of_shifts {count : Nat} {register : UInt32} (zero : shifts count register = 0) :
    register = 0 := by
  induction count generalizing register with
  | zero => exact zero
  | succ count ih => exact eq_zero_of_shift (ih zero)

theorem shifts_injective (count : Nat) : Function.Injective (shifts count) := by
  intro a b same
  have zero := shifts_xor count a b
  rw [same, UInt32.xor_self] at zero
  exact UInt32.xor_eq_zero_iff.1 (eq_zero_of_shifts zero)

theorem shifts_add (first second : Nat) (register : UInt32) :
    shifts (first + second) register = shifts second (shifts first register) := by
  induction first generalizing register with
  | zero => rw [Nat.zero_add]; rfl
  | succ first ih => rw [Nat.succ_add, shifts, shifts, ih]

/-- A number that stands in the high bits moves down. -/
theorem shifts_ofNat {count n : Nat} (fits : n * 2 ^ count < 2 ^ 32) :
    shifts count (UInt32.ofNat (n * 2 ^ count)) = UInt32.ofNat n := by
  induction count with
  | zero => rw [Nat.pow_zero, Nat.mul_one]; rfl
  | succ count ih =>
      have twice : n * 2 ^ (count + 1) = 2 * (n * 2 ^ count) := by
        rw [Nat.pow_succ]
        ac_rfl
      have value : (UInt32.ofNat (2 * (n * 2 ^ count))).toNat = 2 * (n * 2 ^ count) :=
        UInt32.toNat_ofNat_of_lt' (twice ▸ fits)
      have down : shift (UInt32.ofNat (2 * (n * 2 ^ count))) = UInt32.ofNat (n * 2 ^ count) := by
        rw [shift_eq, carry, value, if_neg (by omega), UInt32.xor_zero, ← UInt32.toNat_inj,
          UInt32.toNat_shiftRight, value, UInt32.toNat_ofNat_of_lt' (show _ < 2 ^ 32 by omega)]
        exact Nat.mul_div_cancel_left _ (by decide)
      rw [twice, shifts, down, ih (by omega)]

/-! ### Octets -/

theorem feed_injective (octet : UInt8) : Function.Injective (feed · octet) := fun _ _ same =>
  (UInt32.xor_left_inj _).1 (shifts_injective 8 same)

/-- Registers that differ do so behind the same octets. -/
theorem foldl_feed_injective (octets : Bytes) : Function.Injective (octets.foldl feed) := by
  induction octets with
  | nil => exact fun _ _ same => same
  | cons octet rest ih => exact fun _ _ same => feed_injective octet (ih same)

/-- The word of up to four octets. -/
def word (octets : Bytes) : UInt32 := UInt32.ofNat (Bytes.fromLittleEndian octets)

theorem fromLittleEndian_lt_of_lt {octets : Bytes} {count : Nat} (few : octets.length ≤ count) :
    Bytes.fromLittleEndian octets < 256 ^ count :=
  Nat.lt_of_lt_of_le (Bytes.fromLittleEndian_lt octets) (Nat.pow_le_pow_right (by decide) few)

/-- Bits that stand apart are added as they are. -/
theorem xor_eq_add {low high count : Nat} (small : low < 2 ^ count) :
    low ^^^ 2 ^ count * high = low + 2 ^ count * high := by
  refine Nat.eq_of_testBit_eq fun place => ?_
  rw [Nat.add_comm, Nat.testBit_two_pow_mul_add _ small, Nat.testBit_xor, Nat.testBit_two_pow_mul]
  by_cases below : place < count
  · simp [below, Nat.not_le.2 below]
  · have above : count ≤ place := Nat.not_lt.1 below
    have none : low.testBit place = false :=
      Nat.testBit_lt_two_pow (Nat.lt_of_lt_of_le small (Nat.pow_le_pow_right (by decide) above))
    simp [below, above, none]

theorem word_cons {octet : UInt8} {rest : Bytes} (few : rest.length ≤ 3) :
    word (octet :: rest) =
      octet.toUInt32 ^^^ UInt32.ofNat (Bytes.fromLittleEndian rest * 2 ^ 8) := by
  have high : Bytes.fromLittleEndian rest < 256 ^ 3 := fromLittleEndian_lt_of_lt few
  have low : octet.toNat < 2 ^ 8 := octet.toNat_lt
  rw [← UInt32.toNat_inj, UInt32.toNat_xor, UInt8.toNat_toUInt32, word, Bytes.fromLittleEndian,
    UInt32.toNat_ofNat_of_lt' (show _ < 2 ^ 32 by omega),
    UInt32.toNat_ofNat_of_lt' (show _ < 2 ^ 32 by omega), Nat.mul_comm _ (2 ^ 8), xor_eq_add low]

/-- Up to four octets are added to the low bits of the register and then shifted away. -/
theorem foldl_feed {octets : Bytes} (few : octets.length ≤ 4) (register : UInt32) :
    octets.foldl feed register = shifts (8 * octets.length) (register ^^^ word octets) := by
  induction octets generalizing register with
  | nil => exact UInt32.xor_zero.symm
  | cons octet rest ih =>
      have fewer : rest.length ≤ 3 := Nat.le_of_succ_le_succ few
      have high : Bytes.fromLittleEndian rest < 256 ^ 3 := fromLittleEndian_lt_of_lt fewer
      have down : shifts 8 (UInt32.ofNat (Bytes.fromLittleEndian rest * 2 ^ 8)) = word rest :=
        shifts_ofNat (by omega)
      have places : 8 * (octet :: rest).length = 8 + 8 * rest.length := by
        rw [List.length_cons]
        omega
      rw [List.foldl_cons, ih (Nat.le_of_succ_le few), feed, ← down, ← shifts_xor, ← shifts_add,
        word_cons fewer, UInt32.xor_assoc, places]

/-- Up to four octets can be told from the register behind them. -/
theorem eq_of_foldl_feed {octets others : Bytes} (few : octets.length ≤ 4)
    (length : others.length = octets.length) {register : UInt32}
    (same : octets.foldl feed register = others.foldl feed register) : octets = others := by
  rw [foldl_feed few, foldl_feed (length ▸ few), length] at same
  have words := (UInt32.xor_right_inj register).1 (shifts_injective _ same)
  have small : Bytes.fromLittleEndian octets < 256 ^ 4 := fromLittleEndian_lt_of_lt few
  have others_small : Bytes.fromLittleEndian others < 256 ^ 4 :=
    fromLittleEndian_lt_of_lt (length ▸ few)
  have numbers := congrArg UInt32.toNat words
  rw [word, word, UInt32.toNat_ofNat_of_lt' small,
    UInt32.toNat_ofNat_of_lt' others_small] at numbers
  rw [← Bytes.littleEndian_fromLittleEndian octets, numbers, ← length,
    Bytes.littleEndian_fromLittleEndian]

/-- A change of up to four octets in a row changes the check value. -/
theorem checksum_ne {octets others : Bytes} (few : octets.length ≤ 4)
    (length : others.length = octets.length) (differ : others ≠ octets) (front behind : Bytes) :
    checksum (front ++ (others ++ behind)) ≠ checksum (front ++ (octets ++ behind)) := by
  intro same
  rw [checksum, checksum, UInt32.xor_left_inj, List.foldl_append, List.foldl_append,
    List.foldl_append, List.foldl_append] at same
  exact differ (eq_of_foldl_feed few length (foldl_feed_injective behind same).symm).symm

end Crc32
end TileBindery
