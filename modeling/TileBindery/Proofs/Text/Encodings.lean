import TileBindery.Archive.Options
import TileBindery.Proofs.Text.Utf8RoundTrip

/-!
# Text encodings of octets are read as they were written

Base64 and hexadecimal texts consist of the characters of an alphabet, and give back the octets
they were written for.
-/

namespace TileBindery

/-- The octet of a character of seven bits. -/
def octetOf (c : Char) : UInt8 := UInt8.ofNat c.toNat

namespace Hex

/-- All digits that are written. -/
def alphabet : List Char := "0123456789abcdef".toList

theorem digit_mem_alphabet {n : Nat} (small : n < 16) : digit n ∈ alphabet := by
  have all : ∀ n < 16, digit n ∈ alphabet := by decide
  exact all n small

theorem digitValue?_digit {n : Nat} (small : n < 16) :
    digitValue? (octetOf (digit n)) = some n := by
  have all : ∀ n < 16, digitValue? (octetOf (digit n)) = some n := by decide
  exact all n small

theorem encode_subset (octets : Bytes) : encode octets ⊆ alphabet := by
  intro c member
  obtain ⟨octet, -, digits⟩ := List.mem_flatMap.1 member
  have small := octet.toNat_lt
  rw [List.mem_cons, List.mem_singleton] at digits
  rcases digits with rfl | rfl
  · exact digit_mem_alphabet (by omega)
  · exact digit_mem_alphabet (Nat.mod_lt _ (by decide))

theorem decodePairs_encode (position : Nat) (octets : Bytes) :
    decodePairs position ((encode octets).map octetOf) = .ok octets := by
  induction octets generalizing position with
  | nil => rfl
  | cons octet octets ih =>
      have small := octet.toNat_lt
      have pair : 16 * (octet.toNat / 16) + octet.toNat % 16 = octet.toNat := by omega
      have shape : (encode (octet :: octets)).map octetOf =
          octetOf (digit (octet.toNat / 16)) :: octetOf (digit (octet.toNat % 16)) ::
            (encode octets).map octetOf := rfl
      rw [shape, decodePairs, digitValue?_digit (by omega), digitValue?_digit (by omega)]
      simp only [ih, pair, UInt8.ofNat_toNat]
      rfl

@[simp]
theorem length_encode (octets : Bytes) : (encode octets).length = 2 * octets.length := by
  induction octets with
  | nil => rfl
  | cons octet octets ih =>
      rw [encode, List.flatMap_cons, List.length_append, ← encode, ih, List.length_cons]
      simp only [List.length_cons, List.length_nil]
      omega

theorem decode_encode (octets : Bytes) : decode ((encode octets).map octetOf) = .ok octets := by
  have even : ¬2 * octets.length % 2 = 1 := by omega
  rw [decode, List.length_map, length_encode, if_neg even, decodePairs_encode]

end Hex

namespace Base64

/-- All symbols, and the padding mark. -/
def alphabet : List Char :=
  "ABCDEFGHIJKLMNOPQRSTUVWXYZabcdefghijklmnopqrstuvwxyz0123456789+/=".toList

/-- The numbers whose symbols write octets down. -/
def sextets : Bytes → List Nat
  | [] => []
  | [a] => [a.toNat / 4, a.toNat % 4 * 16]
  | [a, b] => [a.toNat / 4, a.toNat % 4 * 16 + b.toNat / 16, b.toNat % 16 * 4]
  | a :: b :: c :: rest =>
      a.toNat / 4 :: (a.toNat % 4 * 16 + b.toNat / 16) :: (b.toNat % 16 * 4 + c.toNat / 64) ::
        c.toNat % 64 :: sextets rest

/-- How many marks fill up the last group. -/
def marks : Bytes → Nat
  | [] => 0
  | [_] => 2
  | [_, _] => 1
  | _ :: _ :: _ :: rest => marks rest

theorem encode_eq (octets : Bytes) :
    encode octets = (sextets octets).map symbol ++ List.replicate (marks octets) '=' := by
  induction octets using sextets.induct with
  | case1 => rfl
  | case2 a => rfl
  | case3 a b => rfl
  | case4 a b c rest ih => simp only [encode, sextets, marks, ih, List.map_cons, List.cons_append]

theorem octetsOf_sextets (octets : Bytes) : octetsOf (sextets octets) = octets := by
  have join (octet : UInt8) {n : Nat} (same : n = octet.toNat) : UInt8.ofNat n = octet := by
    rw [same, UInt8.ofNat_toNat]
  induction octets using sextets.induct with
  | case1 => rfl
  | case2 a =>
      have := a.toNat_lt
      rw [sextets, octetsOf, join a (by omega)]
  | case3 a b =>
      have := a.toNat_lt
      have := b.toNat_lt
      rw [sextets, octetsOf, join a (by omega), join b (by omega)]
  | case4 a b c rest ih =>
      have := a.toNat_lt
      have := b.toNat_lt
      have := c.toNat_lt
      rw [sextets, octetsOf, join a (by omega), join b (by omega),
        join c (by omega), ih]

theorem sextets_lt (octets : Bytes) : ∀ n ∈ sextets octets, n < 64 := by
  induction octets using sextets.induct with
  | case1 => simp [sextets]
  | case2 a =>
      have := a.toNat_lt
      simp only [sextets, List.mem_cons, List.not_mem_nil, or_false]
      omega
  | case3 a b =>
      have := a.toNat_lt
      have := b.toNat_lt
      simp only [sextets, List.mem_cons, List.not_mem_nil, or_false]
      omega
  | case4 a b c rest ih =>
      have := a.toNat_lt
      have := b.toNat_lt
      have := c.toNat_lt
      simp only [sextets, List.mem_cons]
      rintro n (rfl | rfl | rfl | rfl | member)
      case inr.inr.inr.inr => exact ih n member
      all_goals omega

/-- Groups are filled up, by two marks at most. -/
theorem length_sextets (octets : Bytes) :
    ((sextets octets).length + marks octets) % 4 = 0 ∧ marks octets ≤ 2 := by
  induction octets using sextets.induct with
  | case1 => decide
  | case2 a => simp [sextets, marks]
  | case3 a b => simp [sextets, marks]
  | case4 a b c rest ih =>
      simp only [sextets, marks, List.length_cons]
      omega

theorem hasLooseBits_add_four (count n : Nat) :
    hasLooseBits (count + 4) n = hasLooseBits count n := by
  rw [hasLooseBits, hasLooseBits, Nat.add_mod_right]

/-- No symbol sets bits that belong to no octet. -/
theorem hasLooseBits_sextets {octets : Bytes} {n : Nat}
    (last : (sextets octets).getLast? = some n) :
    hasLooseBits (sextets octets).length n = false := by
  induction octets using sextets.induct with
  | case1 => simp [sextets] at last
  | case2 a =>
      obtain rfl : a.toNat % 4 * 16 = n := by simpa [sextets] using last
      simp [hasLooseBits, sextets]
  | case3 a b =>
      obtain rfl : b.toNat % 16 * 4 = n := by simpa [sextets] using last
      simp [hasLooseBits, sextets]
  | case4 a b c rest ih =>
      rw [sextets, List.length_cons, List.length_cons, List.length_cons, List.length_cons,
        hasLooseBits_add_four]
      cases behind : sextets rest with
      | nil => rfl
      | cons first others =>
          rw [sextets, behind] at last
          rw [← behind]
          apply ih
          rw [behind]
          simpa using last

/-! ### Reading symbols -/

theorem symbol_mem_alphabet {n : Nat} (small : n < 64) : symbol n ∈ alphabet := by
  have all : ∀ n < 64, symbol n ∈ alphabet := by decide +kernel
  exact all n small

theorem symbolValue?_symbol {n : Nat} (small : n < 64) :
    symbolValue? (octetOf (symbol n)) = some n := by
  have all : ∀ n < 64, symbolValue? (octetOf (symbol n)) = some n := by decide +kernel
  exact all n small

theorem octetOf_symbol_ne_pad {n : Nat} (small : n < 64) : octetOf (symbol n) ≠ pad := by
  intro same
  have value := symbolValue?_symbol small
  rw [same] at value
  cases value

theorem encode_subset (octets : Bytes) : encode octets ⊆ alphabet := by
  rw [encode_eq]
  intro c member
  rcases List.mem_append.1 member with symbols | mark
  · obtain ⟨n, found, rfl⟩ := List.mem_map.1 symbols
    exact symbol_mem_alphabet (sextets_lt octets n found)
  · rw [List.eq_of_mem_replicate mark]
    decide

theorem symbols_map {numbers : List Nat} (small : ∀ n ∈ numbers, n < 64) (offset : Nat) :
    symbols offset (numbers.map fun n => octetOf (symbol n)) = .ok numbers := by
  induction numbers generalizing offset with
  | nil => rfl
  | cons n numbers ih =>
      have behind := ih (fun other member => small other (List.mem_cons_of_mem _ member))
      rw [List.map_cons, symbols, symbolValue?_symbol (small n List.mem_cons_self)]
      simp only [behind]
      rfl

theorem lastSymbols_pad {start index : Nat} {padding : Option Nat} {rest : Bytes}
    (late : 2 ≤ index % 4) :
    lastSymbols start index padding (pad :: rest) =
      lastSymbols start (index + 1) (some (padding.getD index)) rest := by
  rw [lastSymbols.eq_def]
  exact (if_pos rfl).trans (if_neg (Nat.not_lt.2 late))

theorem lastSymbols_symbol {start index n : Nat} {rest : Bytes} (small : n < 64) :
    lastSymbols start index none (octetOf (symbol n) :: rest) =
      (lastSymbols start (index + 1) none rest).map ((octetOf (symbol n), n) :: ·) := by
  rw [lastSymbols.eq_def]
  simp only [if_neg (octetOf_symbol_ne_pad small), symbolValue?_symbol small]

/-- Marks are passed over where they fill up a group. -/
theorem lastSymbols_marks {start index count : Nat} {padding : Option Nat}
    (fills : count = 0 ∨ 2 ≤ index % 4 ∧ index % 4 + count = 4) :
    lastSymbols start index padding (List.replicate count pad) = .ok [] := by
  induction count generalizing index padding with
  | zero => rfl
  | succ count ih =>
      rw [List.replicate_succ, lastSymbols_pad (by omega)]
      exact ih (by omega)

theorem lastSymbols_map {numbers : List Nat} (small : ∀ n ∈ numbers, n < 64)
    (start index : Nat) {count : Nat} (few : count ≤ 2)
    (fills : (index + numbers.length + count) % 4 = 0) :
    lastSymbols start index none
        (numbers.map (fun n => octetOf (symbol n)) ++ List.replicate count pad) =
      .ok (numbers.map fun n => (octetOf (symbol n), n)) := by
  induction numbers generalizing index with
  | nil =>
      rw [List.length_nil] at fills
      exact lastSymbols_marks (by omega)
  | cons n numbers ih =>
      have here := small n List.mem_cons_self
      have behind := @ih (fun other member => small other (List.mem_cons_of_mem _ member))
        (index + 1) (by rw [List.length_cons] at fills; omega)
      rw [List.map_cons, List.cons_append, lastSymbols_symbol here, behind]
      rfl

/-- The last symbol of whole blocks less stands where it stood in its group. -/
theorem hasLooseBits_drop {numbers : List Nat} {start n : Nat} (block : start % 8 = 0)
    (sound : ∀ last, numbers.getLast? = some last → hasLooseBits numbers.length last = false)
    (ended : (numbers.drop start).getLast? = some n) :
    hasLooseBits (numbers.drop start).length n = false := by
  rw [List.getLast?_drop] at ended
  split at ended
  next => simp at ended
  next later =>
    have same : (numbers.length - start) % 4 = numbers.length % 4 := by omega
    rw [← sound n ended, List.length_drop, hasLooseBits, hasLooseBits, same]

/-- Symbols that fill up their groups with marks are read, unless the last sets loose bits. -/
theorem decode_symbols {numbers : List Nat} {count : Nat} (small : ∀ n ∈ numbers, n < 64)
    (whole : (numbers.length + count) % 4 = 0) (few : count ≤ 2)
    (sound : ∀ last, numbers.getLast? = some last → hasLooseBits numbers.length last = false) :
    decode (numbers.map (fun n => octetOf (symbol n)) ++ List.replicate count pad) =
      .ok (octetsOf numbers) := by
  -- The last block starts at the last multiple of eight that has symbols behind it.
  generalize begins : (numbers.length + count - 1) / 8 * 8 = start
  have start_le : start ≤ numbers.length := by omega
  have front : (numbers.map (fun n => octetOf (symbol n)) ++ List.replicate count pad).take start =
      (numbers.take start).map fun n => octetOf (symbol n) := by
    rw [List.take_append_of_le_length (by rwa [List.length_map]), List.map_take]
  have behind : (numbers.map (fun n => octetOf (symbol n)) ++ List.replicate count pad).drop start =
      (numbers.drop start).map (fun n => octetOf (symbol n)) ++ List.replicate count pad := by
    rw [List.drop_append_of_le_length (by rwa [List.length_map]), List.map_drop]
  have body := symbols_map (fun n member => small n (List.mem_of_mem_take (i := start) member)) 0
  have last := lastSymbols_map (fun n member => small n (List.mem_of_mem_drop (i := start) member))
    start 0 few (by rw [List.length_drop]; omega)
  rw [decode]
  simp only [List.length_append, List.length_map, List.length_replicate]
  rw [if_neg (by omega), begins, front, behind, body, last]
  simp only
  rw [if_neg (by omega), List.getLast?_map]
  cases ended : (numbers.drop start).getLast? with
  | none =>
      have join := List.take_append_drop start numbers
      rw [List.getLast?_eq_none_iff.1 ended, List.append_nil] at join
      rw [join]
      rfl
  | some n =>
      have loose := hasLooseBits_drop (by omega) sound ended
      have values : ((numbers.drop start).map fun n => (octetOf (symbol n), n)).map (·.2) =
          numbers.drop start := by
        rw [List.map_map]
        exact List.map_id _
      simp only [Option.map_some, List.length_map, loose, Bool.false_eq_true, if_false, values,
        List.take_append_drop]

theorem decode_encode (octets : Bytes) : decode ((encode octets).map octetOf) = .ok octets := by
  obtain ⟨whole, few⟩ := length_sextets octets
  have shape : (encode octets).map octetOf =
      (sextets octets).map (fun n => octetOf (symbol n)) ++
        List.replicate (marks octets) pad := by
    rw [encode_eq, List.map_append, List.map_map, List.map_replicate]
    rfl
  rw [shape, decode_symbols (sextets_lt octets) whole few fun _ => hasLooseBits_sextets,
    octetsOf_sextets]

end Base64

namespace BinaryEncoding

/-- The characters of texts that hold octets. -/
def alphabet : BinaryEncoding → List Char
  | .plain => []
  | .base64 => Base64.alphabet
  | .hex => Hex.alphabet

theorem encode_subset {encoding : BinaryEncoding} (real : encoding ≠ .plain) (octets : Bytes) :
    encoding.encode octets ⊆ encoding.alphabet := by
  cases encoding with
  | plain => exact absurd rfl real
  | base64 => exact Base64.encode_subset octets
  | hex => exact Hex.encode_subset octets

/-- What is written for octets is read as them. -/
theorem decode_encode {encoding : BinaryEncoding} (real : encoding ≠ .plain) (octets : Bytes) :
    encoding.decode (encoding.encode octets) = .ok octets := by
  cases encoding with
  | plain => exact absurd rfl real
  | base64 =>
      have ascii : ∀ c ∈ Base64.alphabet, c.toNat < 0x80 := by
        simpa using (by decide : Base64.alphabet.all (·.toNat < 0x80) = true)
      have text : Utf8.encode (Base64.encode octets) = (Base64.encode octets).map octetOf :=
        Utf8.encode_of_ascii fun c member => ascii c (Base64.encode_subset octets member)
      rw [encode, decode, text, Base64.decode_encode]
      rfl
  | hex =>
      have ascii : ∀ c ∈ Hex.alphabet, c.toNat < 0x80 := by
        simpa using (by decide : Hex.alphabet.all (·.toNat < 0x80) = true)
      have text : Utf8.encode (Hex.encode octets) = (Hex.encode octets).map octetOf :=
        Utf8.encode_of_ascii fun c member => ascii c (Hex.encode_subset octets member)
      rw [encode, decode, text, Hex.decode_encode]
      rfl

/-- Only the text of no octets is empty. -/
theorem encode_eq_nil_iff {encoding : BinaryEncoding} (real : encoding ≠ .plain)
    {octets : Bytes} : encoding.encode octets = [] ↔ octets = [] := by
  have nothing : encoding.encode [] = [] := by
    cases encoding with
    | plain => exact absurd rfl real
    | base64 => rfl
    | hex => rfl
  refine ⟨fun none => ?_, fun same => same ▸ nothing⟩
  have read := decode_encode real octets
  rw [none, ← nothing, decode_encode real []] at read
  exact (Except.ok.inj read).symm

end BinaryEncoding
end TileBindery
