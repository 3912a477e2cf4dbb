import TileBindery.Proofs.Text.Numerals
import TileBindery.Proofs.Toml.Strings

/-!
# Values in TOML are read as they are written

Strings, natural numbers and truth values stand at the end of a line.  A number is tried as a
date-time and as a float before it is read as an integer, so digits up to the end of a line must be
neither.
-/

namespace TileBindery

/-! ### Digits are no date-time -/

namespace TomlDateTime

variable {number : List Char} (all : ∀ c ∈ number, c.isDigit) (rest : List Char)

include all in
/-- Behind some of the digits of a line there are the others. -/
theorem digits_line {count found : Nat} {behind : List Char}
    (taken : digits count (number ++ '\n' :: rest) = some (found, behind)) :
    ∃ others, (∀ c ∈ others, c.isDigit) ∧ behind = others ++ '\n' :: rest := by
  unfold digits at taken
  dsimp only at taken
  split at taken
  next enough =>
    obtain ⟨-, only⟩ := enough
    have short : count ≤ number.length := by
      refine Nat.not_lt.1 fun long => ?_
      have broken : '\n' ∈ (number ++ '\n' :: rest).take count := by
        rw [List.take_append, List.mem_append]
        obtain ⟨more, shape⟩ : ∃ more, count - number.length = more + 1 :=
          ⟨count - number.length - 1, by omega⟩
        rw [shape, List.take_succ_cons]
        exact .inr List.mem_cons_self
      exact absurd (List.all_eq_true.1 only '\n' broken) (by decide)
    cases taken
    refine ⟨number.drop count, fun c member => all c (List.mem_of_mem_drop member), ?_⟩
    rw [List.drop_append_of_le_length short]
  next => cases taken

include all in
theorem mark_line {expected : Char} (other : ¬expected.isDigit) (line : '\n' ≠ expected) :
    mark expected (number ++ '\n' :: rest) = none := by
  cases number with
  | nil => exact if_neg line
  | cons c number =>
      refine if_neg ?_
      rintro rfl
      exact other (all c List.mem_cons_self)

include all in
theorem takeDate_line : takeDate (number ++ '\n' :: rest) = none := by
  rw [takeDate, Option.bind_eq_bind, Option.bind_eq_none_iff]
  rintro ⟨year, behind⟩ taken
  obtain ⟨others, digits, rfl⟩ := digits_line all rest taken
  dsimp only
  rw [mark_line digits rest (by decide) (by decide)]
  rfl

include all in
theorem takeTime_line : takeTime (number ++ '\n' :: rest) = none := by
  rw [takeTime, Option.bind_eq_bind, Option.bind_eq_none_iff]
  rintro ⟨hour, behind⟩ taken
  obtain ⟨others, digits, rfl⟩ := digits_line all rest (Option.filter_eq_some_iff.1 taken).1
  dsimp only
  rw [mark_line digits rest (by decide) (by decide)]
  rfl

include all in
theorem take_line : take (number ++ '\n' :: rest) = none := by
  rw [take, takeDate_line all, takeTime_line all]
  rfl

end TomlDateTime

/-- The value that a natural number is written as. -/
def TomlValue.ofNat (n : Nat) : TomlValue := .integer n

namespace TomlReader

/-! ### Digits are read as an integer -/

theorem digitIn?_digit {c : Char} (digit : c.isDigit) : digitIn? 10 c = some (c.toNat - 48) := by
  obtain ⟨least, greatest⟩ : 48 ≤ c.toNat ∧ c.toNat ≤ 57 := Char.isDigit_iff_toNat.1 digit
  have octet : (UInt8.ofNat c.toNat).toNat = c.toNat :=
    UInt8.toNat_ofNat_of_lt (show c.toNat < 256 by omega)
  have value : Hex.digitValue? (UInt8.ofNat c.toNat) = some (c.toNat - 48) := by
    rw [Hex.digitValue?, octet]
    exact if_pos ⟨least, greatest⟩
  rw [digitIn?, hexValue?, if_pos (by omega), value, Option.filter_some, if_pos]
  exact decide_eq_true (by omega)

theorem digitsFrom_line {number : List Char} (all : ∀ c ∈ number, c.isDigit) (found : List Nat)
    (rest : List Char) :
    digitsFrom 10 found (number ++ '\n' :: rest) =
      some (found.reverse ++ number.map fun c => c.toNat - 48, '\n' :: rest) := by
  induction number generalizing found with
  | nil =>
      rw [List.nil_append, List.map_nil, List.append_nil, digitsFrom.eq_4 _ _ _ _ (by decide)]
      rfl
  | cons c number induction =>
      have digit := all c List.mem_cons_self
      have behind := induction (fun other member => all other (List.mem_cons_of_mem c member))
        ((c.toNat - 48) :: found)
      rw [List.cons_append, digitsFrom.eq_4, digitIn?_digit digit]
      · dsimp only
        rw [behind, List.reverse_cons, List.append_assoc, List.singleton_append, List.map_cons]
      · rintro rfl
        cases digit

/-- A zero in front of a number at the end of a line stands alone. -/
theorem zero_line {n : Nat} {rest behind : List Char}
    (shape : Nat.toDigits 10 n ++ '\n' :: rest = '0' :: behind) :
    Nat.toDigits 10 n = ['0'] ∧ behind = '\n' :: rest := by
  obtain ⟨c, others, digits, -⟩ := Digits.exists_toDigits n
  rw [digits, List.cons_append, List.cons.injEq] at shape
  obtain ⟨rfl, rfl⟩ := shape
  obtain rfl := Digits.zero_of_toDigits digits
  exact ⟨digits, rfl⟩

theorem wholeDigits_line (n : Nat) (rest : List Char) :
    wholeDigits (Nat.toDigits 10 n ++ '\n' :: rest) =
      some ((Nat.toDigits 10 n).map fun c => c.toNat - 48, '\n' :: rest) := by
  unfold wholeDigits
  split
  next behind shape =>
    obtain ⟨digits, rfl⟩ := zero_line shape
    rw [digits]
    rfl
  next =>
    obtain ⟨c, others, shape, digit⟩ := Digits.exists_toDigits n
    have all : ∀ d ∈ others, d.isDigit := fun d member =>
      Digits.isDigit_of_mem_toDigits (shape ▸ List.mem_cons_of_mem c member)
    rw [shape, List.cons_append, someDigits, digitIn?_digit digit, Option.bind_some,
      digitsFrom_line all]
    rfl

theorem isDigit_front {n : Nat} {c : Char} {rest behind : List Char}
    (shape : Nat.toDigits 10 n ++ rest = c :: behind) : c.isDigit := by
  obtain ⟨first, others, digits, digit⟩ := Digits.exists_toDigits n
  rw [digits] at shape
  rwa [← (List.cons.inj shape).1]

theorem sign_line (n : Nat) (rest : List Char) :
    sign (Nat.toDigits 10 n ++ '\n' :: rest) = (false, Nat.toDigits 10 n ++ '\n' :: rest) := by
  refine sign.eq_3 _ ?_ ?_
  · exact fun _ shape => absurd (isDigit_front shape) (by decide)
  · exact fun _ shape => absurd (isDigit_front shape) (by decide)

theorem finite_line (n : Nat) (rest : List Char) :
    finite false (Nat.toDigits 10 n ++ '\n' :: rest) = none := by
  rw [finite, wholeDigits_line]
  rfl

theorem float_line (n : Nat) (rest : List Char) :
    float (Nat.toDigits 10 n ++ '\n' :: rest) = none := by
  rw [float, sign_line]
  split
  next shape => cases isDigit_front (Prod.mk.inj shape).2
  next shape => cases isDigit_front (Prod.mk.inj shape).2
  next shape =>
    cases shape
    exact finite_line n rest

theorem integer_line (n : Nat) (rest : List Char) :
    integer (Nat.toDigits 10 n ++ '\n' :: rest) = some ((n : Int), '\n' :: rest) := by
  rw [integer.eq_4, sign_line]
  · dsimp only
    rw [wholeDigits_line, Option.map_some]
    simp only [Decimal.signedPower, Digits.value_toDigits, Bool.false_eq_true, if_false]
  all_goals
    intro _ shape
    exact absurd (zero_line shape).2 (by simp)

/-- A number at the end of a line is read as it is written. -/
theorem numeric_natural {n : Nat} (small : n ≤ TomlValue.maxInteger) (rest : List Char) :
    numeric (TomlWriter.natural n ++ '\n' :: rest) = some (.ofNat n, '\n' :: rest) := by
  have all : ∀ c ∈ Nat.toDigits 10 n, c.isDigit :=
    fun c member => Digits.isDigit_of_mem_toDigits member
  have fits : ¬((n : Int) < -(2 ^ 63) ∨ (TomlValue.maxInteger : Int) < n) := by omega
  rw [TomlWriter.natural, numeric, TomlDateTime.take_line all, float_line, boundedInteger,
    integer_line]
  exact if_neg fits

/-! ### Values -/

theorem string_front (text : String) :
    ∃ c others, TomlWriter.string text = c :: others ∧ (c = '"' ∨ c = '\'') := by
  rw [TomlWriter.string]
  split
  · exact ⟨_, _, rfl, .inl rfl⟩
  · exact ⟨_, _, rfl, .inr rfl⟩
  · exact ⟨_, _, rfl, .inl rfl⟩
  · exact ⟨_, _, rfl, .inr rfl⟩

/-- A text is the written form of a value that holds no others. -/
inductive Spells : List Char → TomlValue → Prop where
  | text (text : String) : Spells (TomlWriter.string text) (.text text)
  | natural {n : Nat} (small : n ≤ TomlValue.maxInteger) :
      Spells (TomlWriter.natural n) (.ofNat n)
  | bool (truth : Bool) : Spells (TomlWriter.bool truth) (.bool truth)

namespace Spells

variable {written : List Char} {found : TomlValue}

theorem front (spells : Spells written found) :
    ∃ c others, written = c :: others ∧ c ∉ [' ', '\t', '[', '\x7b'] := by
  cases spells with
  | text text =>
      obtain ⟨c, others, shape, quote⟩ := string_front text
      refine ⟨c, others, shape, ?_⟩
      rcases quote with rfl | rfl <;> decide
  | natural small =>
      obtain ⟨c, others, shape, digit⟩ := Digits.exists_toDigits _
      refine ⟨c, others, shape, ?_⟩
      intro other
      simp only [List.mem_cons, List.not_mem_nil, or_false] at other
      rcases other with rfl | rfl | rfl | rfl <;> cases digit
  | bool truth => cases truth <;> exact ⟨_, _, rfl, by decide⟩

theorem scalar_line (spells : Spells written found) (rest : List Char) :
    scalar (written ++ '\n' :: rest) = some (found, '\n' :: rest) := by
  cases spells with
  | text text =>
      have read := string_append text (apart_cons (c := '\n') (by decide) rest)
        (apart_cons (by decide) rest)
      obtain ⟨c, others, shape, quote⟩ := string_front text
      rw [shape, List.cons_append] at read ⊢
      rcases quote with rfl | rfl
      · simp only [scalar.eq_3, read, Option.map_some, String.ofList_toList]
      · simp only [scalar.eq_4, read, Option.map_some, String.ofList_toList]
  | @natural n small =>
      rw [scalar.eq_5, numeric_natural small]
      all_goals
        intro _ shape
        cases isDigit_front shape
  | bool truth => cases truth <;> rfl

/-- A value at the end of a line is read as it is written. -/
theorem value_line (spells : Spells written found) (most depth : Nat) (rest : List Char) :
    value most depth (written ++ '\n' :: rest) = some (found, '\n' :: rest) := by
  rw [← spells.scalar_line rest]
  cases depth with
  | zero => rw [value.eq_1]
  | succ depth =>
      obtain ⟨c, others, shape, other⟩ := spells.front
      simp only [List.mem_cons, List.not_mem_nil, or_false, not_or] at other
      obtain ⟨-, -, bracket, brace⟩ := other
      rw [shape, List.cons_append, value.eq_4]
      · exact fun _ same => bracket (List.cons.inj same).1
      · exact fun _ same => brace (List.cons.inj same).1

end Spells
end TomlReader
end TileBindery
