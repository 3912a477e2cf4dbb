import Mathlib.Data.List.Forall2
import TileBindery.Json.Reader
import TileBindery.Json.Writer
import TileBindery.Proofs.Text.Numerals

/-!
# JSON is read as it is written

Integers and texts are read as they are written, whatever stands behind them, as long as nothing
there goes on with the number.
-/

namespace TileBindery

/-! ### Integers -/

namespace JsonNumber

/-- The number that an integer is written as. -/
def ofInt (n : Int) : JsonNumber where
  negative := n < 0
  integer := (Nat.toDigits 10 n.natAbs).map fun c => c.toNat - 48
  fraction := none
  exponent := none

theorem integer?_ofInt (n : Int) : (ofInt n).integer? = some n := by
  simp only [integer?, ofInt, Digits.value_toDigits, Option.isSome_none, Bool.false_eq_true, or_self,
    if_false, decide_eq_true_eq]
  split
  next negative =>
    have magnitude : n.natAbs ≠ 0 := Int.natAbs_ne_zero.2 (Int.ne_of_lt negative)
    rw [if_neg magnitude, Int.ofNat_natAbs_of_nonpos (Int.le_of_lt negative), Int.neg_neg]
  next natural => rw [Int.natAbs_of_nonneg (Int.not_lt.1 natural)]

end JsonNumber

namespace JsonReader

open JsonWriter

/-- No number goes on with what stands here. -/
def EndsNumber (rest : List Char) : Prop :=
  ∀ c ∈ rest.head?, ¬c.isDigit ∧ c ≠ '.' ∧ c ≠ 'e' ∧ c ≠ 'E'

theorem digits_append {number rest : List Char} (all : ∀ c ∈ number, c.isDigit)
    (ends : EndsNumber rest) :
    digits (number ++ rest) = (number.map fun c => c.toNat - 48, rest) := by
  induction number with
  | nil =>
      cases rest with
      | nil => rfl
      | cons c rest =>
          have other := (ends c rfl).1
          simp only [List.nil_append, digits, if_neg other, List.map_nil]
  | cons c number ih =>
      have behind := ih fun other member => all other (List.mem_cons_of_mem c member)
      simp only [List.cons_append, digits, all c List.mem_cons_self, if_true, behind, List.map_cons]

theorem integerPart_toDigits (n : Nat) {rest : List Char} (ends : EndsNumber rest) :
    integerPart (Nat.toDigits 10 n ++ rest) =
      some ((Nat.toDigits 10 n).map fun c => c.toNat - 48, rest) := by
  have all : ∀ c ∈ Nat.toDigits 10 n, c.isDigit :=
    fun c member => Digits.isDigit_of_mem_toDigits member
  have found := digits_append all ends
  rw [integerPart]
  split
  next empty =>
    rw [found, Prod.mk.injEq, List.map_eq_nil_iff] at empty
    exact absurd empty.1 Nat.toDigits_ne_nil
  next lone =>
    rw [found] at lone
    rw [lone]
  next more leading =>
    rw [found, Prod.mk.injEq] at leading
    obtain ⟨first, others, shape, zero, rfl⟩ := List.map_eq_cons_iff.1 leading.1
    have digit := all first (shape ▸ List.mem_cons_self)
    have first_eq : first = '0' := by
      rw [Char.isDigit_iff_toNat] at digit
      refine Char.toNat_inj.1 (show first.toNat = 48 from ?_)
      have least : 48 ≤ first.toNat := digit.1
      omega
    rw [first_eq] at shape
    exact absurd (List.map_eq_nil_iff.2 (Digits.zero_of_toDigits shape)) more
  next => rw [found]

theorem fractionPart_of_ends {rest : List Char} (ends : EndsNumber rest) :
    fractionPart rest = some (none, rest) := by
  unfold fractionPart
  split
  next => exact absurd rfl (ends '.' rfl).2.1
  next => rfl

theorem exponentPart_of_ends {rest : List Char} (ends : EndsNumber rest) :
    exponentPart rest = some (none, rest) := by
  cases rest with
  | nil => rfl
  | cons c rest =>
      obtain ⟨-, -, lower, upper⟩ := ends c rfl
      rw [exponentPart, if_neg (not_or.2 ⟨lower, upper⟩)]

theorem unsigned_toDigits (negative : Bool) (n : Nat) {rest : List Char}
    (ends : EndsNumber rest) :
    unsigned negative (Nat.toDigits 10 n ++ rest) =
      some (⟨negative, (Nat.toDigits 10 n).map fun c => c.toNat - 48, none, none⟩, rest) := by
  simp only [unsigned, integerPart_toDigits n ends, fractionPart_of_ends ends,
    exponentPart_of_ends ends, Option.bind_eq_bind, Option.bind_some, Option.pure_def]

/-- An integer is read as it is written. -/
theorem number_integer (n : Int) {rest : List Char} (ends : EndsNumber rest) :
    number (integer n ++ rest) = some (.ofInt n, rest) := by
  rw [integer]
  split
  next negative =>
    rw [List.cons_append, number, unsigned_toDigits true _ ends, JsonNumber.ofInt,
      decide_eq_true negative]
  next natural =>
    obtain ⟨first, others, shape, digit⟩ := Digits.exists_toDigits n.natAbs
    have whole := unsigned_toDigits false n.natAbs ends
    rw [JsonNumber.ofInt, decide_eq_false natural, ← whole, shape, List.cons_append]
    unfold number
    split
    next sign =>
      rw [(List.cons.inj sign).1] at digit
      exact absurd digit (by decide)
    next => rfl

theorem integer_front (n : Int) : ∃ c others, integer n = c :: others ∧ (c = '-' ∨ c.isDigit) := by
  rw [integer]
  split
  · exact ⟨_, _, rfl, .inl rfl⟩
  · obtain ⟨c, others, shape, digit⟩ := Digits.exists_toDigits n.natAbs
    exact ⟨c, others, shape, .inr digit⟩

theorem value_integer (fuel : Nat) (n : Int) {rest : List Char} (ends : EndsNumber rest) :
    value (fuel + 1) (integer n ++ rest) = some (.number (.ofInt n), rest) := by
  have read := number_integer n ends
  obtain ⟨c, others, shape, front⟩ := integer_front n
  rw [shape, List.cons_append] at read ⊢
  have other {d : Char} (same : c = d) : d = '-' ∨ d.isDigit := same ▸ front
  have blank : skipBlank (c :: (others ++ rest)) = c :: (others ++ rest) := by
    rw [skipBlank, if_neg]
    rintro (same | same | same | same) <;> exact absurd (other same) (by decide)
  rw [value, blank]
  split
  all_goals try
    rename_i same
    exact absurd (other (List.cons.inj same).1) (by decide)
  rw [read]
  rfl

/-! ### Texts -/

/-- What a written character is read as. -/
def pieceOf (c : Char) : Piece :=
  if c.toNat < 32 ∧ c ∉ ['\x08', '\x0c', '\n', '\r', '\t'] then .unit c.toNat else .char c

theorem hexValue?_digit : ∀ n < 16, hexValue? (Hex.digit n) = some n := by decide

/-- A character that stands for itself. -/
theorem pieces_plain {c : Char} (quote : c ≠ '"') (slash : c ≠ '\\') (visible : ¬c.toNat < 32)
    (rest : List Char) :
    pieces (c :: rest) = (pieces rest).map fun found => (.char c :: found.1, found.2) := by
  rw [pieces, if_neg (not_or.2 ⟨visible, slash⟩)]
  · cases pieces rest <;> rfl
  · exact quote
  · exact fun _ _ _ _ _ same => absurd same slash
  · exact fun _ _ same => absurd same slash

theorem pieces_control {c : Char} (control : c.toNat < 32) (rest : List Char) :
    pieces ('\\' :: 'u' :: '0' :: '0' :: Hex.digit (c.toNat / 16) :: Hex.digit (c.toNat % 16) ::
        rest) = (pieces rest).map fun found => (.unit c.toNat :: found.1, found.2) := by
  have unit : unit? '0' '0' (Hex.digit (c.toNat / 16)) (Hex.digit (c.toNat % 16)) =
      some c.toNat := by
    have zero : hexValue? '0' = some 0 := rfl
    simp only [unit?, zero, hexValue?_digit _ (show c.toNat / 16 < 16 by omega),
      hexValue?_digit _ (show c.toNat % 16 < 16 by omega), Option.bind_eq_bind, Option.bind_some,
      Option.pure_def, Option.some.injEq]
    omega
  rw [pieces, unit]
  cases pieces rest <;> rfl

theorem pieces_short {letter c : Char} (means : shortEscape? letter = some c)
    (rest : List Char) :
    pieces ('\\' :: letter :: rest) =
      (pieces rest).map fun found => (.char c :: found.1, found.2) := by
  have other : letter ≠ 'u' := by
    rintro rfl
    cases means
  rw [pieces, means]
  · cases pieces rest <;> rfl
  · exact fun _ _ _ _ _ same => absurd same other

theorem pieces_escape (c : Char) (rest : List Char) :
    pieces (escape c ++ rest) =
      (pieces rest).map fun found => (pieceOf c :: found.1, found.2) := by
  by_cases named : c ∈ ['"', '\\', '\x08', '\x0c', '\n', '\r', '\t']
  · simp only [List.mem_cons, List.not_mem_nil, or_false] at named
    have plain : pieceOf c = .char c := by
      rcases named with rfl | rfl | rfl | rfl | rfl | rfl | rfl <;> rfl
    rw [plain]
    rcases named with rfl | rfl | rfl | rfl | rfl | rfl | rfl <;> exact pieces_short rfl rest
  · simp only [List.mem_cons, List.not_mem_nil, or_false, not_or] at named
    obtain ⟨quote, slash, back, feed, line, carriage, tab⟩ := named
    rw [escape, if_neg quote, if_neg slash, if_neg back, if_neg feed, if_neg line,
      if_neg carriage, if_neg tab, pieceOf]
    by_cases control : c.toNat < 32
    · rw [if_pos control, if_pos ⟨control, by simp [back, feed, line, carriage, tab]⟩]
      exact pieces_control control rest
    · rw [if_neg control, if_neg (control ·.1)]
      exact pieces_plain quote slash control rest

theorem pieces_text (text : List Char) (rest : List Char) :
    pieces (text.flatMap escape ++ '"' :: rest) = some (text.map pieceOf, rest) := by
  induction text with
  | nil => rfl
  | cons c text ih =>
      rw [List.flatMap_cons, List.append_assoc, pieces_escape, ih]
      rfl

theorem assemble_unit {value : Nat} (small : value < 0xD800) (rest : List Piece) :
    assemble (.unit value :: rest) = (assemble rest).map (Char.ofNat value :: ·) := by
  have high : isHigh value = false := by
    simp only [isHigh, Bool.and_eq_false_iff, decide_eq_false_iff_not]
    omega
  have low : isLow value = false := by
    simp only [isLow, Bool.and_eq_false_iff, decide_eq_false_iff_not]
    omega
  rcases rest with - | ⟨piece | unit, rest⟩ <;> simp [assemble, high, low]

theorem assemble_pieceOf (text : List Char) : assemble (text.map pieceOf) = some text := by
  induction text with
  | nil => rfl
  | cons c text ih =>
      rw [List.map_cons, pieceOf]
      split
      next control =>
        rw [assemble_unit (Nat.lt_trans control.1 (by decide)), ih, Char.ofNat_toNat]
        rfl
      next =>
        rw [assemble, ih]
        rfl

/-- A text is read as it is written. -/
theorem string_text (text : String) (rest : List Char) :
    string (text.toList.flatMap escape ++ '"' :: rest) = some (some text.toList, rest) := by
  simp only [string, pieces_text, Option.map_some, assemble_pieceOf]

/-! ### Objects -/

section Listed

variable {α : Type} {close : Char} {item : List Char → Option (α × List Char)}

/-- A written item is read wherever the list goes on or is closed behind it. -/
def ReadsItem (close : Char) (item : List Char → Option (α × List Char)) (written : List Char)
    (found : α) : Prop :=
  ∀ c rest, c = ',' ∨ c = close → item (written ++ c :: rest) = some (found, c :: rest)

theorem skipBlank_mark {c : Char} (mark : c ∉ [' ', '\n', '\t', '\r']) (rest : List Char) :
    skipBlank (c :: rest) = c :: rest := by
  rw [skipBlank, if_neg]
  simpa using mark

/-- Items with commas between them are read up to the closing mark. -/
theorem listed_joined {written : List (List Char)} {found : List α} (some_item : written ≠ [])
    (items : List.Forall₂ (ReadsItem close item) written found)
    (other : close ∉ [',', ' ', '\n', '\t', '\r']) {fuel : Nat} (enough : written.length ≤ fuel)
    (rest : List Char) :
    listed close item fuel (joined written ++ close :: rest) = some (found, rest) := by
  rw [List.mem_cons, not_or] at other
  induction items generalizing fuel with
  | nil => exact absurd rfl some_item
  | @cons first value others values reads behind ih =>
      obtain ⟨fuel, rfl⟩ : ∃ less, fuel = less + 1 :=
        ⟨fuel - 1, (Nat.sub_add_cancel (Nat.le_trans (by simp) enough)).symm⟩
      cases behind with
      | nil =>
          rw [joined, listed, reads close rest (.inr rfl)]
          simp only [Option.bind_eq_bind, Option.bind_some, skipBlank_mark other.2,
            if_neg other.1, if_true, Option.pure_def]
      | @cons next _ more =>
          have last := ih (List.cons_ne_nil _ _) (Nat.le_of_succ_le_succ enough)
          have goes_on : joined (first :: next :: more) =
              first ++ ',' :: joined (next :: more) := rfl
          rw [goes_on, List.append_assoc, List.cons_append, listed, reads ',' _ (.inl rfl)]
          simp only [Option.bind_eq_bind, Option.bind_some, skipBlank_mark (c := ',') (by decide),
            if_true, last, Option.pure_def]

end Listed

theorem member_read {fuel : Nat} {name : String} {written : List Char} {found : JsonValue}
    (reads : ReadsItem '}' (value fuel) written found) :
    ReadsItem '}' (member (value fuel)) (JsonWriter.member name written)
      (some name.toList, found) := by
  intro c rest mark
  have text := string_text name (':' :: (written ++ c :: rest))
  simp only [JsonWriter.member, JsonWriter.string, List.append_assoc, List.cons_append,
    List.nil_append, JsonReader.member, skipBlank_mark (c := '"') (by decide), text,
    Option.bind_eq_bind, Option.bind_some, skipBlank_mark (c := ':') (by decide),
    reads c rest mark, Option.pure_def]

/-- A member of an object: its name, its value as it is written, and the value that is read. -/
structure WrittenMember where
  name : String
  written : List Char
  found : JsonValue

/-- An object is read as it is written. -/
theorem value_object {fuel : Nat} {members : List WrittenMember} (some_member : members ≠ [])
    (reads : ∀ each ∈ members, ReadsItem '}' (value fuel) each.written each.found)
    (enough : members.length ≤ fuel) (rest : List Char) :
    value (fuel + 1)
        (object (members.map fun each => JsonWriter.member each.name each.written) ++ rest) =
      some (.object (members.map fun each => (some each.name.toList, each.found)), rest) := by
  have items : List.Forall₂ (ReadsItem '}' (JsonReader.member (value fuel)))
      (members.map fun each => JsonWriter.member each.name each.written)
      (members.map fun each => (some each.name.toList, each.found)) := by
    rw [List.forall₂_map_left_iff, List.forall₂_map_right_iff, List.forall₂_same]
    exact fun each member => member_read (reads each member)
  have some_item : (members.map fun each => JsonWriter.member each.name each.written) ≠ [] := by
    simpa using some_member
  have enough_items :
      (members.map fun each => JsonWriter.member each.name each.written).length ≤ fuel := by
    rwa [List.length_map]
  have found := listed_joined some_item items (by decide) enough_items rest
  obtain ⟨first, others, rfl⟩ := List.exists_cons_of_ne_nil some_member
  have quoted : ∃ text, joined ((first :: others).map fun each =>
      JsonWriter.member each.name each.written) ++ '}' :: rest = '"' :: text := by
    cases others <;> exact ⟨_, rfl⟩
  obtain ⟨text, shape⟩ := quoted
  have opened : object ((first :: others).map fun each =>
      JsonWriter.member each.name each.written) ++ rest = '{' :: '"' :: text := by
    rw [← shape, object, List.cons_append, List.cons_append, List.append_assoc]
    rfl
  rw [shape] at found
  rw [opened, value, skipBlank_mark (by decide)]
  simp only [skipBlank_mark (c := '"') (by decide)]
  change Option.map _ (listed '}' _ fuel ('"' :: text)) = _
  rw [found]
  rfl

end JsonReader
end TileBindery
