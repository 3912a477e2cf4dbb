import TileBindery.Text.Separator
import TileBindery.Text.Utf8

/-!
# UTF-8 is read as it was written

The octets of a character start no other character, and inside them none starts.  So a text is read
as it was written, and a separator is found among the octets of a text where its first character
stands in the text.
-/

namespace TileBindery

namespace Separator

variable {α : Type} [BEq α] [LawfulBEq α] {separator : List α}

/-- A separator in front is cut at once. -/
theorem cut?_here (nonempty : separator ≠ []) (behind : List α) :
    cut? separator (separator ++ behind) = some ([], behind) := by
  obtain ⟨first, rest, rfl⟩ := List.exists_cons_of_ne_nil nonempty
  rw [List.cons_append, cut?, if_pos (by simp)]
  simp

/-- Where the separator does not stand, cutting goes on. -/
theorem cut?_cons {item : α} {items : List α} (absent : ¬separator <+: item :: items) :
    cut? separator (item :: items) =
      (cut? separator items).map fun (front, behind) => (item :: front, behind) := by
  rw [cut?, if_neg (by simpa using absent)]

/-- Cutting goes on over items at none of which the separator stands. -/
theorem cut?_append {front items : List α}
    (absent : ∀ item rest, item :: rest <:+ front → ¬separator <+: item :: rest ++ items) :
    cut? separator (front ++ items) =
      (cut? separator items).map fun (before, behind) => (front ++ before, behind) := by
  induction front with
  | nil => simp
  | cons item front ih =>
      have here : ¬separator <+: item :: (front ++ items) := absent item front (List.suffix_refl _)
      have later := ih fun other rest suffix => absent other rest (suffix.trans (List.suffix_cons _ _))
      rw [List.cons_append, cut?_cons here, later, Option.map_map]
      rfl

end Separator

namespace Utf8

/-- Octets that stand inside a character. -/
def Continues (octet : UInt8) : Prop := 128 ≤ octet.toNat ∧ octet.toNat < 192

/-- How the octets of a character are laid out. -/
structure Spelling (c : Char) (octet : UInt8) (tail : Bytes) : Prop where
  /-- The character is these octets. -/
  octets : encodeChar c = octet :: tail
  /-- The first one starts a character. -/
  starts : ¬Continues octet
  /-- All others continue it. -/
  continues : ∀ other ∈ tail, Continues other
  /-- It is read again, whatever stands behind it. -/
  reads : ∀ rest, front octet (tail ++ rest) = .char c (tail.length + 1) rest

/-! ### The octets of a character -/

theorem follow_step {range : OctetRange} {ranges : List OctetRange} {value size share : Nat}
    {rest : Bytes} (low : range.1 ≤ 0x80 + share) (high : 0x80 + share ≤ range.2)
    (small : share < 64) :
    follow (range :: ranges) value size (UInt8.ofNat (0x80 + share) :: rest) =
      follow ranges (value * 64 + share) (size + 1) rest := by
  have octet : (UInt8.ofNat (0x80 + share)).toNat = 0x80 + share :=
    UInt8.toNat_ofNat_of_lt' (show _ < 256 by omega)
  have share_eq : (0x80 + share) % 64 = share := by omega
  rw [follow, octet, if_pos ⟨low, high⟩, share_eq]

theorem follow_continuation {ranges : List OctetRange} {value size share : Nat} {rest : Bytes}
    (small : share < 64) :
    follow (continuation :: ranges) value size (UInt8.ofNat (0x80 + share) :: rest) =
      follow ranges (value * 64 + share) (size + 1) rest :=
  follow_step (Nat.le_add_right _ _) (show _ ≤ 0xBF by omega) small

theorem continues_ofNat {share : Nat} (small : share < 64) :
    Continues (UInt8.ofNat (0x80 + share)) := by
  have octet : (UInt8.ofNat (0x80 + share)).toNat = 0x80 + share :=
    UInt8.toNat_ofNat_of_lt' (show _ < 256 by omega)
  rw [Continues, octet]
  omega

theorem not_continues_ofNat {octet : Nat} (fits : octet < 256) (outside : octet < 128 ∨ 192 ≤ octet) :
    ¬Continues (UInt8.ofNat octet) := by
  rw [Continues, UInt8.toNat_ofNat_of_lt' fits]
  omega

theorem spelling_one {c : Char} (high : c.toNat < 0x80) :
    Spelling c (UInt8.ofNat c.toNat) [] where
  octets := by rw [encodeChar]; exact if_pos high
  starts := not_continues_ofNat (by omega) (.inl high)
  continues := by simp
  reads rest := by
    rw [front, UInt8.toNat_ofNat_of_lt' (show _ < 256 by omega), lead, if_pos high]
    simp [follow]

theorem spelling_two {c : Char} (low : 0x80 ≤ c.toNat) (high : c.toNat < 0x800) :
    Spelling c (UInt8.ofNat (0xC0 + c.toNat / 64)) [UInt8.ofNat (0x80 + c.toNat % 64)] where
  octets := by
    rw [encodeChar]
    exact (if_neg (Nat.not_lt.2 low)).trans (if_pos high)
  starts := not_continues_ofNat (by omega) (.inr (by omega))
  continues := by
    rintro _ (_ | ⟨_, ⟨⟩⟩)
    exact continues_ofNat (by omega)
  reads rest := by
    have share : lead (0xC0 + c.toNat / 64) = some (c.toNat / 64, [continuation]) := by
      rw [lead, if_neg (by omega), if_neg (by omega), if_pos (by omega), Nat.add_sub_cancel_left]
    have value : c.toNat / 64 * 64 + c.toNat % 64 = c.toNat := by omega
    rw [front, UInt8.toNat_ofNat_of_lt' (show _ < 256 by omega), share]
    simp only [List.cons_append, List.nil_append]
    rw [follow_continuation (by omega), value, follow, Char.ofNat_toNat]
    rfl

theorem lead_three {n : Nat} (low : 0x800 ≤ n) (high : n < 0x10000)
    (valid : n < 0xD800 ∨ 0xDFFF < n) :
    ∃ range, lead (0xE0 + n / 4096) = some (n / 4096, [range, continuation]) ∧
      range.1 ≤ 0x80 + n / 64 % 64 ∧ 0x80 + n / 64 % 64 ≤ range.2 := by
  by_cases first : n / 4096 = 0
  · refine ⟨(0xA0, 0xBF), ?_, show 0xA0 ≤ _ by omega, show _ ≤ 0xBF by omega⟩
    rw [first]
    rfl
  · by_cases gap : n / 4096 = 0xD
    · refine ⟨(0x80, 0x9F), ?_, show 0x80 ≤ _ by omega, show _ ≤ 0x9F by omega⟩
      rw [gap]
      rfl
    · refine ⟨continuation, ?_, show 0x80 ≤ _ by omega, show _ ≤ 0xBF by omega⟩
      rw [lead, if_neg (by omega), if_neg (by omega), if_neg (by omega), if_neg (by omega),
        if_neg (by omega), if_pos (by omega), Nat.add_sub_cancel_left]

theorem spelling_three {c : Char} (low : 0x800 ≤ c.toNat) (high : c.toNat < 0x10000) :
    Spelling c (UInt8.ofNat (0xE0 + c.toNat / 4096))
      [UInt8.ofNat (0x80 + c.toNat / 64 % 64), UInt8.ofNat (0x80 + c.toNat % 64)] where
  octets := by
    rw [encodeChar]
    exact (if_neg (by omega)).trans ((if_neg (by omega)).trans (if_pos high))
  starts := not_continues_ofNat (by omega) (.inr (by omega))
  continues := by
    rintro _ (_ | ⟨_, _ | ⟨_, ⟨⟩⟩⟩)
    · exact continues_ofNat (by omega)
    · exact continues_ofNat (by omega)
  reads rest := by
    have valid : c.toNat < 0xD800 ∨ 0xDFFF < c.toNat ∧ c.toNat < 0x110000 := c.valid
    obtain ⟨range, share, from_low, to_high⟩ := lead_three low high (valid.imp_right And.left)
    have value : (c.toNat / 4096 * 64 + c.toNat / 64 % 64) * 64 + c.toNat % 64 = c.toNat := by
      omega
    rw [front, UInt8.toNat_ofNat_of_lt' (show _ < 256 by omega), share]
    simp only [List.cons_append, List.nil_append]
    rw [follow_step from_low to_high (by omega), follow_continuation (by omega), value, follow,
      Char.ofNat_toNat]
    rfl

theorem lead_four {n : Nat} (low : 0x10000 ≤ n) (high : n < 0x110000) :
    ∃ range, lead (0xF0 + n / 262144) =
        some (n / 262144, [range, continuation, continuation]) ∧
      range.1 ≤ 0x80 + n / 4096 % 64 ∧ 0x80 + n / 4096 % 64 ≤ range.2 := by
  by_cases first : n / 262144 = 0
  · refine ⟨(0x90, 0xBF), ?_, show 0x90 ≤ _ by omega, show _ ≤ 0xBF by omega⟩
    rw [first]
    rfl
  · by_cases last : n / 262144 = 4
    · refine ⟨(0x80, 0x8F), ?_, show 0x80 ≤ _ by omega, show _ ≤ 0x8F by omega⟩
      rw [last]
      rfl
    · refine ⟨continuation, ?_, show 0x80 ≤ _ by omega, show _ ≤ 0xBF by omega⟩
      rw [lead, if_neg (by omega), if_neg (by omega), if_neg (by omega), if_neg (by omega),
        if_neg (by omega), if_neg (by omega), if_neg (by omega), if_pos (by omega),
        Nat.add_sub_cancel_left]

theorem spelling_four {c : Char} (low : 0x10000 ≤ c.toNat) :
    Spelling c (UInt8.ofNat (0xF0 + c.toNat / 262144))
      [UInt8.ofNat (0x80 + c.toNat / 4096 % 64), UInt8.ofNat (0x80 + c.toNat / 64 % 64),
        UInt8.ofNat (0x80 + c.toNat % 64)] where
  octets := by
    rw [encodeChar]
    exact (if_neg (by omega)).trans ((if_neg (by omega)).trans (if_neg (by omega)))
  starts := by
    have valid : c.toNat < 0xD800 ∨ 0xDFFF < c.toNat ∧ c.toNat < 0x110000 := c.valid
    exact not_continues_ofNat (by omega) (.inr (by omega))
  continues := by
    rintro _ (_ | ⟨_, _ | ⟨_, _ | ⟨_, ⟨⟩⟩⟩⟩)
    · exact continues_ofNat (by omega)
    · exact continues_ofNat (by omega)
    · exact continues_ofNat (by omega)
  reads rest := by
    have valid : c.toNat < 0xD800 ∨ 0xDFFF < c.toNat ∧ c.toNat < 0x110000 := c.valid
    obtain ⟨range, share, from_low, to_high⟩ := lead_four low (by omega)
    have value : ((c.toNat / 262144 * 64 + c.toNat / 4096 % 64) * 64 + c.toNat / 64 % 64) * 64 +
        c.toNat % 64 = c.toNat := by omega
    rw [front, UInt8.toNat_ofNat_of_lt' (show _ < 256 by omega), share]
    simp only [List.cons_append, List.nil_append]
    rw [follow_step from_low to_high (by omega), follow_continuation (by omega),
      follow_continuation (by omega), value, follow, Char.ofNat_toNat]
    rfl

/-- Every character has octets of this kind. -/
theorem exists_spelling (c : Char) : ∃ octet tail, Spelling c octet tail := by
  rcases Nat.lt_or_ge c.toNat 0x80 with one | two
  · exact ⟨_, _, spelling_one one⟩
  rcases Nat.lt_or_ge c.toNat 0x800 with high | three
  · exact ⟨_, _, spelling_two two high⟩
  rcases Nat.lt_or_ge c.toNat 0x10000 with high | four
  · exact ⟨_, _, spelling_three three high⟩
  · exact ⟨_, _, spelling_four four⟩

/-- The octets of a character tell it, whatever stands behind them. -/
theorem encodeChar_append_inj {a b : Char} {behind others : Bytes}
    (same : encodeChar a ++ behind = encodeChar b ++ others) : a = b ∧ behind = others := by
  obtain ⟨octet, tail, spelling⟩ := exists_spelling a
  obtain ⟨other, ending, spelled⟩ := exists_spelling b
  rw [spelling.octets, spelled.octets] at same
  obtain ⟨rfl, tails⟩ := List.cons.inj same
  have fronts := (spelling.reads behind).symm.trans
    ((congrArg (front octet) tails).trans (spelled.reads others))
  injection fronts with chars _ rests
  exact ⟨chars, rests⟩

/-! ### Texts -/

theorem encode_cons (c : Char) (text : List Char) :
    encode (c :: text) = encodeChar c ++ encode text := rfl

@[simp]
theorem encode_append (front behind : List Char) :
    encode (front ++ behind) = encode front ++ encode behind := List.flatMap_append

theorem encode_flatten (texts : List (List Char)) :
    encode texts.flatten = (texts.map encode).flatten := by
  induction texts with
  | nil => rfl
  | cons text texts ih => rw [List.flatten_cons, encode_append, ih, List.map_cons, List.flatten_cons]

/-- Texts of seven bits have an octet a character. -/
theorem encode_of_ascii {text : List Char} (ascii : ∀ c ∈ text, c.toNat < 0x80) :
    encode text = text.map fun c => UInt8.ofNat c.toNat := by
  induction text with
  | nil => rfl
  | cons c text ih =>
      have here : encodeChar c = [UInt8.ofNat c.toNat] :=
        (spelling_one (ascii c List.mem_cons_self)).octets
      rw [encode_cons, here, ih fun other member => ascii other (List.mem_cons_of_mem _ member)]
      rfl

theorem decodeFrom_encode (offset : Nat) (text : List Char) :
    decodeFrom offset (encode text) = .ok text := by
  induction text generalizing offset with
  | nil => rw [encode, List.flatMap_nil, decodeFrom]
  | cons c text ih =>
      obtain ⟨octet, tail, spelling⟩ := exists_spelling c
      rw [encode_cons, spelling.octets, List.cons_append, decodeFrom]
      split
      next found =>
        rw [spelling.reads] at found
        cases found
        rw [ih]
        rfl
      next found => simp [spelling.reads] at found
      next found => simp [spelling.reads] at found

/-- A text is read as it was written. -/
theorem decode_encode (text : List Char) : decode (encode text) = .ok text :=
  decodeFrom_encode 0 text

/-- Cutting octets goes on over a text without the first character of the separator. -/
theorem cut?_encode_append {first : Char} {text : List Char} (absent : first ∉ text)
    (separator : List Char) (items : Bytes) :
    Separator.cut? (encode (first :: separator)) (encode text ++ items) =
      (Separator.cut? (encode (first :: separator)) items).map
        fun (before, behind) => (encode text ++ before, behind) := by
  obtain ⟨octet, tail, spelling⟩ := exists_spelling first
  induction text with
  | nil => exact Option.map_id'.symm
  | cons c text ih =>
      obtain ⟨differs, absent⟩ := not_or.1 (mt List.mem_cons.2 absent)
      rw [encode_cons c, List.append_assoc, Separator.cut?_append, ih absent, Option.map_map]
      · simp only [Function.comp_def, List.append_assoc]
      · obtain ⟨other, ending, spelled⟩ := exists_spelling c
        rw [spelled.octets]
        rintro item rest suffix ⟨others, shape⟩
        rcases List.suffix_cons_iff.1 suffix with whole | inside
        · rw [whole, ← spelled.octets, encode_cons, List.append_assoc] at shape
          exact differs (encodeChar_append_inj shape).1
        · have member : item ∈ ending := inside.subset List.mem_cons_self
          rw [encode_cons, spelling.octets] at shape
          obtain ⟨rfl, -⟩ := List.cons.inj shape
          exact spelling.starts (spelled.continues _ member)

theorem encode_cons_ne_nil (c : Char) (text : List Char) : encode (c :: text) ≠ [] := by
  obtain ⟨octet, tail, spelling⟩ := exists_spelling c
  rw [encode_cons, spelling.octets]
  exact List.cons_ne_nil _ _

/-- The octets of a separator are found behind a text without its first character. -/
theorem cut?_encode {first : Char} {text : List Char} (absent : first ∉ text)
    (separator : List Char) (behind : Bytes) :
    Separator.cut? (encode (first :: separator))
        (encode text ++ (encode (first :: separator) ++ behind)) =
      some (encode text, behind) := by
  rw [cut?_encode_append absent, Separator.cut?_here (encode_cons_ne_nil first separator)]
  simp

/-- The octets of a separator are not found in a text without its first character. -/
theorem cut?_encode_none {first : Char} {text : List Char} (absent : first ∉ text)
    (separator : List Char) :
    Separator.cut? (encode (first :: separator)) (encode text) = none := by
  have cut := cut?_encode_append absent separator []
  rw [List.append_nil] at cut
  rw [cut, Separator.cut?, if_neg (by simpa using encode_cons_ne_nil first separator)]
  rfl

end Utf8
end TileBindery
