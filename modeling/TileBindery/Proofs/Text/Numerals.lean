import TileBindery.Digits

/-!
# Decimal numerals

The digits in which numbers are written in texts, and the numbers that they spell.
-/

namespace TileBindery
namespace Digits

theorem isDigit_of_mem_toDigits {n : Nat} {c : Char} (member : c ∈ Nat.toDigits 10 n) :
    c.isDigit := Nat.isDigit_of_mem_toDigits (by decide) (by decide) member

theorem exists_toDigits (n : Nat) : ∃ c others, Nat.toDigits 10 n = c :: others ∧ c.isDigit := by
  obtain ⟨c, others, shape⟩ := List.exists_cons_of_ne_nil (@Nat.toDigits_ne_nil n 10)
  exact ⟨c, others, shape, isDigit_of_mem_toDigits (shape ▸ List.mem_cons_self)⟩

theorem value_toDigits (n : Nat) :
    value 10 ((Nat.toDigits 10 n).map fun c => c.toNat - 48) = n := by
  have spelled : Nat.ofDigitChars 10 (Nat.toDigits 10 n) 0 = n := Nat.ofDigitChars_ten_toDigits
  have order : (fun (value : Nat) (c : Char) => c.toNat - 48 + 10 * value) =
      fun value c => 10 * value + (c.toNat - '0'.toNat) := by
    funext value c
    exact Nat.add_comm _ _
  rw [value_eq_foldl, List.foldl_map, order]
  exact spelled

/-- Only zero is written with a zero in front. -/
theorem zero_of_toDigits {n : Nat} {rest : List Char} (shape : Nat.toDigits 10 n = '0' :: rest) :
    rest = [] := by
  induction n using Nat.strongRecOn generalizing rest with
  | ind n ih =>
      rw [Nat.toDigits_eq_if (by decide)] at shape
      by_cases small : n < 10
      · rw [if_pos small, List.cons.injEq] at shape
        exact shape.2.symm
      · rw [if_neg small] at shape
        obtain ⟨first, others, digits⟩ := List.exists_cons_of_ne_nil
          (@Nat.toDigits_ne_nil (n / 10) 10)
        rw [digits, List.cons_append, List.cons.injEq] at shape
        obtain ⟨rfl, -⟩ := shape
        -- in front of the last digit stands a number without further digits, which is zero
        obtain rfl := ih (n / 10) (by omega) digits
        have zero := @Nat.ofDigitChars_ten_toDigits (n / 10)
        rw [digits] at zero
        have none : n / 10 = 0 := zero.symm
        omega

end Digits
end TileBindery
