import TileBindery.Proofs.Text.Utf8RoundTrip
import TileBindery.Wire.Basic

/-!
# Messages are read as they were written

A reader reads octets if it gives back one value for them, whatever stands behind them, and consumes
them exactly.  This is stated for scalars, keys, fields and nested messages, each from its parts, so
that a message is read back because all of its fields are.
-/

namespace TileBindery
namespace Wire

variable {α β μ : Type}

/-- A reader gets a value from octets and consumes just these.  Nothing is said about octets too
long for their number to be written. -/
def Reads (reader : Reader α) (octets : Bytes) (value : α) : Prop :=
  octets.length < 2 ^ 64 → ∀ rest,
    reader (.ofBytes (octets ++ rest)) = .ok (value, .ofBytes rest)

theorem Reads.pure (value : α) : Reads (pure value) [] value := fun _ _ => rfl

theorem Reads.bind {reader : Reader α} {next : α → Reader β} {front behind : Bytes} {value : α}
    {result : β} (first : Reads reader front value) (second : Reads (next value) behind result) :
    Reads (reader >>= next) (front ++ behind) result := by
  intro small rest
  rw [List.length_append] at small
  have read := first (by omega) (behind ++ rest)
  rw [List.append_assoc]
  change (reader _).bind _ = _
  rw [read]
  exact second (by omega) rest

/-- What is read may be checked and put into a message. -/
theorem Reads.bind_pure {reader : Reader α} {next : α → Reader β} {octets : Bytes} {value : α}
    {result : β} (read : Reads reader octets value) (ends : next value = Pure.pure result) :
    Reads (reader >>= next) octets result := by
  have both := read.bind (ends ▸ Reads.pure result)
  rwa [List.append_nil] at both

theorem Reads.map {reader : Reader α} {octets : Bytes} {value : α} (read : Reads reader octets value)
    (f : α → β) : Reads (reader >>= fun value => Pure.pure (f value)) octets (f value) :=
  read.bind_pure rfl

theorem Reads.within {reader : Reader α} {octets : Bytes} {value : α} (field : String)
    (read : Reads reader octets value) : Reads (within field reader) octets value := by
  intro small rest
  rw [Wire.within, read small rest]

/-- A check that passes takes nothing. -/
theorem Reads.expect {reader : Reader α} {octets : Bytes} {value : α} (type : ValueType)
    (read : Reads reader octets value) :
    Reads (expect type type >>= fun _ => reader) octets value := by
  have passes : Reads (Wire.expect type type) [] () := by
    rw [Wire.expect, if_pos rfl]
    exact Reads.pure ()
  exact passes.bind read

/-! ### Scalars -/

theorem varint_of_lt {n : Nat} (small : n < 128) : varint n = [UInt8.ofNat n] := by
  rw [varint, dif_pos small]

theorem varint_of_le {n : Nat} (large : 128 ≤ n) :
    varint n = UInt8.ofNat (n % 128 + 128) :: varint (n / 128) := by
  rw [varint, dif_neg (Nat.not_lt.2 large)]

theorem varint_ne_nil (n : Nat) : varint n ≠ [] := by
  rcases Nat.lt_or_ge n 128 with small | large
  · rw [varint_of_lt small]
    exact List.cons_ne_nil _ _
  · rw [varint_of_le large]
    exact List.cons_ne_nil _ _

theorem frontVarint_varint {n limit : Nat} (fits : n < 128 ^ (limit + 1)) (rest : Bytes) :
    frontVarint (limit + 1) (varint n ++ rest) = some (n, (varint n).length) := by
  induction limit generalizing n with
  | zero =>
      have value : (UInt8.ofNat n).toNat = n := UInt8.toNat_ofNat_of_lt' (show n < 256 by omega)
      rw [varint_of_lt fits, List.singleton_append, frontVarint]
      simp only [value, if_pos (show n < 128 from fits), List.length_singleton]
  | succ limit ih =>
      rcases Nat.lt_or_ge n 128 with small | large
      · have value : (UInt8.ofNat n).toNat = n := UInt8.toNat_ofNat_of_lt' (show n < 256 by omega)
        rw [varint_of_lt small, List.singleton_append, frontVarint]
        simp only [value, if_pos small, List.length_singleton]
      · have value : (UInt8.ofNat (n % 128 + 128)).toNat = n % 128 + 128 :=
          UInt8.toNat_ofNat_of_lt' (show _ < 256 by omega)
        have high : n / 128 < 128 ^ (limit + 1) :=
          Nat.div_lt_of_lt_mul (by rwa [Nat.pow_succ, Nat.mul_comm] at fits)
        have join : (n % 128 + 128) % 128 + 128 * (n / 128) = n := by omega
        rw [varint_of_le large, List.cons_append, frontVarint]
        simp only [value, if_neg (show ¬n % 128 + 128 < 128 by omega), ih high, Option.map_some,
          join, List.length_cons]

theorem reads_varint {n : Nat} (fits : n < 2 ^ 64) : Reads readVarint (varint n) n := by
  intro _ rest
  have front : frontVarint 10 (Unread.ofBytes (varint n ++ rest)).octets =
      some (n, (varint n).length) := frontVarint_varint (Nat.lt_trans fits (by decide)) rest
  simp only [readVarint, front, if_pos fits, Unread.drop_ofBytes_append]

/-- The key of a field is read as it was written. -/
theorem reads_putKey {field : Nat} (valid : 0 < field ∧ field < 2 ^ 29) (type : ValueType) :
    Reads readKey (putKey field type) ⟨field, type⟩ := by
  have code_lt : type.code < 8 := by cases type <;> decide
  have code : (field * 8 + type.code) % 8 = type.code := by omega
  have number : (field * 8 + type.code) / 8 = field := by omega
  have key := reads_varint (show field * 8 + type.code < 2 ^ 64 by omega)
  refine key.bind_pure ?_
  rw [if_neg (by omega), code, ValueType.ofCode?_code, number]
  exact if_neg (Nat.ne_of_gt valid.1)

theorem reads_octets (octets : Bytes) : Reads (readOctets octets.length) octets octets := by
  intro _ rest
  have enough : ¬(Unread.ofBytes (octets ++ rest)).size < octets.length := by
    simp [Unread.ofBytes]
  have front : (Unread.ofBytes (octets ++ rest)).octets.take octets.length = octets := by
    simp [Unread.ofBytes]
  rw [readOctets, if_neg enough, front, Unread.drop_ofBytes_append]

/-- The varint of a 32-bit integer gives it back, also a negative one of ten octets. -/
theorem reads_putInt32 (value : Int32) : Reads (readInt32 .varint) (putInt32 value) value := by
  have low := value.le_toInt
  have high := value.toInt_lt
  have fits : (value.toInt % 2 ^ 64).toNat < 2 ^ 64 := by omega
  have same : Int32.ofNat (value.toInt % 2 ^ 64).toNat = value := by
    rw [← Int32.toInt_inj, Int32.toInt_ofNat', Int.toNat_of_nonneg (by omega), Int.bmod_def]
    simp only [Int32.size]
    omega
  exact Reads.expect _ ((reads_varint fits).bind_pure (congrArg Pure.pure same))

theorem reads_putDouble (value : Binary64) : Reads (readDouble .fixed64) (putDouble value) value := by
  have octets := reads_octets (putDouble value)
  have fits : value.bits.toNat < 256 ^ 8 := value.bits.toNat_lt
  rw [show (putDouble value).length = 8 from Bytes.length_littleEndian _ _] at octets
  refine Reads.expect _ (octets.bind_pure ?_)
  rw [putDouble, Bytes.fromLittleEndian_littleEndian, Nat.mod_eq_of_lt fits, UInt64.ofNat_toNat]

/-- Octets are read behind their length. -/
theorem reads_putBytes (octets : Bytes) : Reads (readBytes .delimited) (putBytes octets) octets := by
  intro small
  have fits : octets.length < 2 ^ 64 := by
    rw [putBytes, List.length_append] at small
    omega
  exact Reads.expect _ ((reads_varint fits).bind (reads_octets octets)) small

theorem reads_putText (text : String) : Reads (readText .delimited) (putText text) text := by
  refine (reads_putBytes (Utf8.encode text.toList)).bind_pure ?_
  rw [Utf8.decode_encode]
  dsimp only
  rw [String.ofList_toList]

/-! ### Fields -/

/-- Octets are fields that make one message of another. -/
inductive Fields (field : Key → μ → Reader μ) : Bytes → μ → μ → Prop where
  | nil (message : μ) : Fields field [] message message
  | cons {front behind : Bytes} {before middle after : μ} (nonempty : front ≠ [])
      (first : Reads (readKey >>= fun key => field key before) front middle)
      (rest : Fields field behind middle after) : Fields field (front ++ behind) before after

theorem Fields.append {field : Key → μ → Reader μ} {front behind : Bytes} {before middle after : μ}
    (first : Fields field front before middle) (second : Fields field behind middle after) :
    Fields field (front ++ behind) before after := by
  induction first with
  | nil => exact second
  | cons nonempty read _ ih =>
      rw [List.append_assoc]
      exact .cons nonempty read (ih second)

/-- A field is read as it was written if its value is. -/
theorem Fields.ofKey {field : Key → μ → Reader μ} {number : Nat} {type : ValueType} {value : Bytes}
    {before after : μ} (valid : 0 < number ∧ number < 2 ^ 29)
    (read : Reads (field ⟨number, type⟩ before) value after) :
    Fields field (putKey number type ++ value) before after := by
  have nonempty : putKey number type ++ value ≠ [] :=
    List.append_ne_nil_of_left_ne_nil (varint_ne_nil _) _
  have one := Fields.cons nonempty ((reads_putKey valid type).bind read) (.nil after)
  rwa [List.append_nil] at one

theorem readFields_of_le {field : Key → μ → Reader μ} {stop : Nat} {unread : Unread}
    (ended : unread.size ≤ stop) (fuel : Nat) (message : μ) :
    readFields field stop fuel message unread = .ok (message, unread) := by
  cases fuel with
  | zero => rfl
  | succ fuel =>
      change (if unread.size ≤ stop then Pure.pure message else _ : Reader μ) unread = _
      rw [if_pos ended]
      rfl

theorem readFields_of_lt {field : Key → μ → Reader μ} {stop : Nat} {unread : Unread}
    (left : stop < unread.size) (fuel : Nat) (message : μ) :
    readFields field stop (fuel + 1) message unread =
      ((readKey >>= fun key => field key message) >>= readFields field stop fuel) unread := by
  change (if unread.size ≤ stop then Pure.pure message else _ : Reader μ) unread = _
  rw [if_neg (Nat.not_le.2 left), bind_assoc]

/-- Fields are read up to where they stop. -/
theorem Fields.readFields {field : Key → μ → Reader μ} {octets : Bytes} {before after : μ}
    (fields : Fields field octets before after) (small : octets.length < 2 ^ 64) (rest : Bytes)
    {fuel : Nat} (enough : octets.length ≤ fuel) :
    readFields field rest.length fuel before (.ofBytes (octets ++ rest)) =
      .ok (after, .ofBytes rest) := by
  induction fields generalizing fuel with
  | nil message => exact @readFields_of_le μ field _ (.ofBytes rest) (Nat.le_refl _) fuel message
  | @cons front behind before middle after nonempty first _ ih =>
      have present := List.length_pos_iff.2 nonempty
      rw [List.length_append] at small enough
      obtain ⟨fuel, rfl⟩ := Nat.exists_eq_succ_of_ne_zero (show fuel ≠ 0 by omega)
      have left : rest.length < (Unread.ofBytes (front ++ behind ++ rest)).size := by
        simp only [Unread.ofBytes, List.length_append]
        omega
      rw [readFields_of_lt left, List.append_assoc]
      change ((readKey >>= fun key => field key before) _).bind _ = _
      rw [first (by omega) (behind ++ rest)]
      exact ih (by omega) (by omega)

theorem Fields.readDelimited {field : Key → μ → Reader μ} {octets : Bytes} {before after : μ}
    (fields : Fields field octets before after) :
    Reads (readDelimited field before) (putBytes octets) after := by
  intro small rest
  rw [putBytes, List.length_append] at small
  have inner := fields.readFields (by omega) rest (Nat.le_refl _)
  have length := reads_varint (show octets.length < 2 ^ 64 by omega) (by omega) (octets ++ rest)
  have enough : ¬(Unread.ofBytes (octets ++ rest)).size < octets.length := by simp [Unread.ofBytes]
  have stop : (Unread.ofBytes (octets ++ rest)).size - octets.length = rest.length := by
    simp [Unread.ofBytes]
  rw [putBytes, List.append_assoc]
  change (readVarint _).bind _ = _
  rw [length]
  change (if (Unread.ofBytes (octets ++ rest)).size < octets.length then _ else _ : Reader μ) _ = _
  rw [if_neg enough]
  change (Wire.readFields field ((Unread.ofBytes (octets ++ rest)).size - octets.length) _ _ _).bind
    _ = _
  rw [stop, inner]
  change (if (Unread.ofBytes rest).size = rest.length then Pure.pure after else _ : Reader μ) _ = _
  rw [if_pos (show (Unread.ofBytes rest).size = rest.length from rfl)]
  rfl

/-- A nested message is read back if its fields are. -/
theorem Fields.readMessage {field : Nat → Key → μ → Reader μ} {depth : Nat} {octets : Bytes}
    {before after : μ} (fields : Fields (field depth) octets before after) :
    Reads (readMessage field (depth + 1) .delimited before) (putBytes octets) after :=
  Reads.expect _ fields.readDelimited

theorem Fields.readWhole {field : Nat → Key → μ → Reader μ} {octets : Bytes} {before after : μ}
    (fields : Fields (field maxDepth) octets before after) (small : octets.length < 2 ^ 64) :
    readWhole field before octets = .ok after := by
  have read := fields.readFields small [] (Nat.le_refl _)
  rw [List.append_nil] at read
  change ((Wire.readFields (field maxDepth) 0 octets.length before _).map _ : Except _ _) = _
  rw [show (0 : Nat) = ([] : Bytes).length from rfl, read]
  rfl

end Wire
end TileBindery
