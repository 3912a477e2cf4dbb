import TileBindery.Proofs.Text.Utf8RoundTrip

/-!
# Only what was written is read as UTF-8

Octets that are read as a text are the octets of this text: no character has a second spelling.
-/

namespace TileBindery
namespace Utf8

/-! ### Characters -/

theorem toNat_ofNat {n : Nat} (valid : n.isValidChar) : (Char.ofNat n).toNat = n := by
  rw [Char.ofNat, dif_pos valid]
  rfl

theorem ofNat_eq (octet : UInt8) {n : Nat} (same : n = octet.toNat) : UInt8.ofNat n = octet := by
  rw [same, UInt8.ofNat_toNat]

/-- Octets that start a character, with their shares of it and the ranges of those that follow. -/
inductive Starts (octet : Nat) : Nat → List OctetRange → Prop where
  | one (low : octet < 0x80) : Starts octet octet []
  | two {value : Nat} (low : 2 ≤ value) (high : value < 32) (octet_eq : octet = 0xC0 + value) :
      Starts octet value [continuation]
  /-- The range of the second octet leaves out what has a shorter spelling, and surrogates. -/
  | three {value : Nat} {range : OctetRange} (high : value < 16) (octet_eq : octet = 0xE0 + value)
      (from_low : 0x80 ≤ range.1) (to_high : range.2 ≤ 0xBF) (first : value = 0 → 0xA0 ≤ range.1)
      (gap : value = 0xD → range.2 ≤ 0x9F) : Starts octet value [range, continuation]
  /-- The range of the second octet leaves out what has a shorter spelling, and what lies behind the
  last character. -/
  | four {value : Nat} {range : OctetRange} (high : value < 5) (octet_eq : octet = 0xF0 + value)
      (from_low : 0x80 ≤ range.1) (to_high : range.2 ≤ 0xBF) (first : value = 0 → 0x90 ≤ range.1)
      (last : value = 4 → range.2 ≤ 0x8F) : Starts octet value [range, continuation, continuation]

theorem starts_of_lead {octet value : Nat} {ranges : List OctetRange}
    (h : lead octet = some (value, ranges)) : Starts octet value ranges := by
  have low : 0x80 ≤ continuation.1 := Nat.le_refl _
  have high : continuation.2 ≤ 0xBF := Nat.le_refl _
  rw [lead] at h
  split at h
  next one =>
    obtain ⟨rfl, rfl⟩ := Prod.mk.inj (Option.some.inj h)
    exact .one one
  split at h
  next => cases h
  split at h
  next =>
    obtain ⟨rfl, rfl⟩ := Prod.mk.inj (Option.some.inj h)
    exact .two (by omega) (by omega) (by omega)
  split at h
  next first =>
    obtain ⟨rfl, rfl⟩ := Prod.mk.inj (Option.some.inj h)
    exact .three (by omega) first (show 0x80 ≤ 0xA0 by omega) (Nat.le_refl _)
      (fun _ => Nat.le_refl _) (by omega)
  split at h
  next gap =>
    obtain ⟨rfl, rfl⟩ := Prod.mk.inj (Option.some.inj h)
    exact .three (by omega) gap (Nat.le_refl _) (show 0x9F ≤ 0xBF by omega) (by omega)
      fun _ => Nat.le_refl _
  split at h
  next =>
    obtain ⟨rfl, rfl⟩ := Prod.mk.inj (Option.some.inj h)
    exact .three (by omega) (by omega) low high (by omega) (by omega)
  split at h
  next first =>
    obtain ⟨rfl, rfl⟩ := Prod.mk.inj (Option.some.inj h)
    exact .four (by omega) first (show 0x80 ≤ 0x90 by omega) (Nat.le_refl _)
      (fun _ => Nat.le_refl _) (by omega)
  split at h
  next =>
    obtain ⟨rfl, rfl⟩ := Prod.mk.inj (Option.some.inj h)
    exact .four (by omega) (by omega) low high (by omega) (by omega)
  split at h
  next last =>
    obtain ⟨rfl, rfl⟩ := Prod.mk.inj (Option.some.inj h)
    exact .four (by omega) last (Nat.le_refl _) (show 0x8F ≤ 0xBF by omega) (by omega)
      fun _ => Nat.le_refl _
  next => cases h

theorem exists_of_follow {range : OctetRange} {ranges : List OctetRange} {value size count : Nat}
    {octets left : Bytes} {c : Char}
    (h : follow (range :: ranges) value size octets = .char c count left) :
    ∃ octet rest, octets = octet :: rest ∧ range.1 ≤ octet.toNat ∧ octet.toNat ≤ range.2 ∧
      follow ranges (value * 64 + octet.toNat % 64) (size + 1) rest = .char c count left := by
  cases octets with
  | nil => cases h
  | cons octet rest =>
      rw [follow] at h
      split at h
      next within => exact ⟨octet, rest, rfl, within.1, within.2, h⟩
      next => cases h

/-- A character that is found in front of octets is written as the octets in front of the others. -/
theorem encodeChar_of_front {octet : UInt8} {rest left : Bytes} {c : Char} {size : Nat}
    (h : front octet rest = .char c size left) : encodeChar c ++ left = octet :: rest := by
  rw [front] at h
  split at h
  next => cases h
  next value ranges found =>
    cases starts_of_lead found with
    | one =>
        cases h
        have value : (Char.ofNat octet.toNat).toNat = octet.toNat := toNat_ofNat (.inl (by omega))
        rw [(spelling_one (by omega)).octets, ofNat_eq octet value]
        rfl
    | two low high octet_eq =>
        obtain ⟨second, rest, rfl, second_low, second_high, h⟩ := exists_of_follow h
        simp only [continuation] at second_low second_high
        injection h with c_eq _ rest_eq
        have share : c.toNat = value * 64 + second.toNat % 64 := by
          rw [← c_eq]
          exact toNat_ofNat (.inl (by omega))
        rw [(spelling_two (by omega) (by omega)).octets, ofNat_eq octet (by omega),
          ofNat_eq second (by omega), rest_eq]
        rfl
    | three high octet_eq from_low to_high first gap =>
        obtain ⟨second, rest, rfl, second_low, second_high, h⟩ := exists_of_follow h
        obtain ⟨third, rest, rfl, third_low, third_high, h⟩ := exists_of_follow h
        simp only [continuation] at third_low third_high
        injection h with c_eq _ rest_eq
        have share : c.toNat = (value * 64 + second.toNat % 64) * 64 + third.toNat % 64 := by
          rw [← c_eq]
          refine toNat_ofNat ?_
          rw [Nat.isValidChar]
          omega
        rw [(spelling_three (by omega) (by omega)).octets, ofNat_eq octet (by omega),
          ofNat_eq second (by omega), ofNat_eq third (by omega), rest_eq]
        rfl
    | four high octet_eq from_low to_high first last =>
        obtain ⟨second, rest, rfl, second_low, second_high, h⟩ := exists_of_follow h
        obtain ⟨third, rest, rfl, third_low, third_high, h⟩ := exists_of_follow h
        obtain ⟨fourth, rest, rfl, fourth_low, fourth_high, h⟩ := exists_of_follow h
        simp only [continuation] at third_low third_high fourth_low fourth_high
        injection h with c_eq _ rest_eq
        have share : c.toNat = ((value * 64 + second.toNat % 64) * 64 + third.toNat % 64) * 64 +
            fourth.toNat % 64 := by
          rw [← c_eq]
          refine toNat_ofNat ?_
          rw [Nat.isValidChar]
          omega
        rw [(spelling_four (by omega)).octets, ofNat_eq octet (by omega),
          ofNat_eq second (by omega), ofNat_eq third (by omega), ofNat_eq fourth (by omega),
          rest_eq]
        rfl

/-! ### Texts -/

theorem encode_of_decodeFrom {offset : Nat} {octets : Bytes} {text : List Char}
    (h : decodeFrom offset octets = .ok text) : encode text = octets := by
  fun_induction decodeFrom offset octets generalizing text with
  | case1 => cases h; rfl
  | case2 offset octet rest c size left found _ ih =>
      cases behind : decodeFrom (offset + size) left with
      | error fault => simp [behind, Except.map] at h
      | ok others =>
          simp only [behind, Except.map, Except.ok.injEq] at h
          subst h
          rw [encode_cons, ih behind, encodeChar_of_front found]
  | case3 => cases h
  | case4 => cases h

/-- Octets that are read as a text are the octets of the text. -/
theorem encode_of_decode {octets : Bytes} {text : List Char} (h : decode octets = .ok text) :
    encode text = octets :=
  encode_of_decodeFrom h

end Utf8
end TileBindery
