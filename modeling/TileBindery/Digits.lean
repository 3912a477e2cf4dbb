/-!
# Digits

The number that a sequence of digits spells.  Neighbouring digits are joined to digits of the
squared base until one is left, so long sequences are read in few steps on large numbers.  The main
statement says that this is the value found by reading digit after digit.
-/

namespace TileBindery
namespace Digits

/-- Join neighbouring digits, least significant first, to digits of the squared base. -/
def pairs (base : Nat) : List Nat → List Nat
  | low :: high :: rest => (low + base * high) :: pairs base rest
  | rest => rest

theorem length_pairs_le (base : Nat) (digits : List Nat) :
    2 * (pairs base digits).length ≤ digits.length + 1 := by
  fun_induction pairs base digits with
  | case1 low high rest ih => simp only [List.length_cons]; omega
  | case2 rest short =>
      match rest, short with
      | [], _ => simp
      | [_], _ => simp
      | low :: high :: rest, short => exact absurd rfl (short low high rest)

/-- The number that digits spell, least significant first. -/
def ascending (base : Nat) (digits : List Nat) : Nat :=
  match digits with
  | [] => 0
  | [digit] => digit
  | low :: high :: rest => ascending (base * base) (pairs base (low :: high :: rest))
termination_by digits.length
decreasing_by
  have := length_pairs_le base (low :: high :: rest)
  simp only [List.length_cons] at this ⊢
  omega

/-- The number that digits spell, most significant first. -/
def value (base : Nat) (digits : List Nat) : Nat := ascending base digits.reverse

theorem foldr_pairs (base : Nat) (digits : List Nat) :
    (pairs base digits).foldr (fun digit value => digit + base * base * value) 0 =
      digits.foldr (fun digit value => digit + base * value) 0 := by
  fun_induction pairs base digits with
  | case1 low high rest ih =>
      rw [List.foldr_cons, List.foldr_cons, List.foldr_cons, ih, Nat.mul_add, Nat.mul_assoc,
        Nat.add_assoc]
  | case2 rest short =>
      match rest, short with
      | [], _ => rfl
      | [_], _ => simp
      | low :: high :: rest, short => exact absurd rfl (short low high rest)

theorem ascending_eq_foldr (base : Nat) (digits : List Nat) :
    ascending base digits = digits.foldr (fun digit value => digit + base * value) 0 := by
  fun_induction ascending base digits with
  | case1 => rfl
  | case2 base digit => simp
  | case3 base low high rest ih => rw [ih, foldr_pairs]

/-- Digits spell what they give when they are read one after another. -/
theorem value_eq_foldl (base : Nat) (digits : List Nat) :
    value base digits = digits.foldl (fun value digit => digit + base * value) 0 := by
  rw [value, ascending_eq_foldr, List.foldr_reverse]

end Digits
end TileBindery
