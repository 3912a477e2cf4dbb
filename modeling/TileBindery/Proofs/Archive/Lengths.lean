import Mathlib.Data.List.TakeWhile
import TileBindery.Proofs.Archive.Readers

/-!
# Lengths in front of entries

The length of an entry is a number in groups of seven bits, lowest first; an octet with its highest
bit set says that another one follows.  The reader keeps 64 bits of it.  So it takes a length below
2 ^ 64 for what it is, and any other for a smaller one.
-/

namespace TileBindery
namespace EntryStream

/-- The number whose groups of seven bits, lowest first, stand in octets. -/
def sevens : Bytes → Nat
  | [] => 0
  | octet :: rest => octet.toNat % 128 + 128 * sevens rest

/-- Another octet of the length follows this one. -/
def continues (octet : UInt8) : Bool := 128 ≤ octet.toNat

/-- Read what stands behind a length. -/
def body (length : Nat) (source : ByteSource) : Next :=
  if maxEntry < length then .failed (.decode (.entryTooLarge length))
  else
    match source.take length with
    | .ended => .failed (.decode (.cutEntry length))
    | .broken error => .failed (.device error)
    | .all octets rest =>
        match EntryFormat.readEntryOctets octets with
        | .error fault => .failed (.decode (.wire fault))
        | .ok entry => .entry entry rest

/-- The value of the length in front of a stream, if it is complete within ten octets, and the
stream behind it. -/
def length? (source : ByteSource) : Option (Nat × ByteSource) :=
  let digits := source.octets.takeWhile continues
  match source.octets.dropWhile continues with
  | [] => none
  | last :: rest =>
      if digits.length < 10 then some (sevens (digits ++ [last]), { source with octets := rest })
      else none

/-- What is found in front of a stream without such a length. -/
def lacking (source : ByteSource) : Next :=
  if 10 ≤ (source.octets.takeWhile continues).length then .failed (.decode .longLength)
  else
    match source.breakage with
    | some error => .failed (.device error)
    | none => if source.octets.isEmpty then .ended else .failed (.decode .cutLength)

/-- Read the entry in front by the value of its length, of which `held` is kept. -/
def nextBy (held : Nat → Nat) (source : ByteSource) : Next :=
  match length? source with
  | some (value, rest) => body (held value) rest
  | none => lacking source

theorem two_pow_seven_succ (count : Nat) : 2 ^ (7 * (count + 1)) = 128 * 2 ^ (7 * count) := by
  rw [Nat.mul_succ, Nat.pow_add, Nat.mul_comm]

theorem sevens_append (front behind : Bytes) :
    sevens (front ++ behind) = sevens front + sevens behind * 2 ^ (7 * front.length) := by
  induction front with
  | nil => simp [sevens]
  | cons octet front ih =>
      rw [List.cons_append, sevens, sevens, ih, List.length_cons, two_pow_seven_succ, Nat.mul_add,
        Nat.mul_left_comm, Nat.add_assoc]

/-- Octets that another one follows are read off one by one. -/
theorem readLengthFrom_append {digits : Bytes} {limit value : Nat}
    (all : ∀ octet ∈ digits, continues octet) (few : digits.length ≤ limit) (small : value < 2 ^ 64)
    (index : Nat) (rest : Bytes) (breakage : Option DeviceError) :
    readLengthFrom index value ⟨digits ++ rest, breakage⟩ limit =
      readLengthFrom (index + digits.length)
        ((value + sevens digits * 2 ^ (7 * index)) % 2 ^ 64) ⟨rest, breakage⟩
        (limit - digits.length) := by
  induction digits generalizing limit value index with
  | nil => simp [sevens, Nat.mod_eq_of_lt small]
  | cons octet digits ih =>
      cases limit with
      | zero => simp at few
      | succ limit =>
          have high : ¬octet.toNat < 128 :=
            Nat.not_lt.2 (of_decide_eq_true (all octet List.mem_cons_self))
          have join : value + octet.toNat % 128 * 2 ^ (7 * index) +
              sevens digits * 2 ^ (7 * (index + 1)) =
              value + sevens (octet :: digits) * 2 ^ (7 * index) := by
            rw [sevens, two_pow_seven_succ, Nat.add_mul, Nat.add_assoc, Nat.mul_assoc 128,
              Nat.mul_left_comm]
          rw [List.cons_append, readLengthFrom]
          simp only [high, if_false]
          rw [ih (fun other member => all other (List.mem_cons_of_mem _ member))
            (Nat.le_of_succ_le_succ few) (Nat.mod_lt _ (by decide)), Nat.mod_add_mod, join,
            List.length_cons, Nat.succ_sub_succ, Nat.add_assoc, Nat.add_comm 1]

variable {digits rest : Bytes} {breakage : Option DeviceError}

/-- A length of more than ten octets is refused. -/
theorem readLength_of_long (all : ∀ octet ∈ digits, continues octet) (many : 10 ≤ digits.length) :
    readLength ⟨digits ++ rest, breakage⟩ = .failed (.decode .longLength) := by
  have ten : (digits.take 10).length = 10 := List.length_take_of_le many
  have split : digits ++ rest = digits.take 10 ++ (digits.drop 10 ++ rest) := by
    rw [← List.append_assoc, List.take_append_drop]
  have front : ∀ octet ∈ digits.take 10, continues octet :=
    fun octet member => all octet (List.mem_of_mem_take member)
  rw [readLength, split, readLengthFrom_append front (Nat.le_of_eq ten) (by decide), ten]
  rfl

theorem readLength_append (all : ∀ octet ∈ digits, continues octet) (few : digits.length < 10) :
    readLength ⟨digits ++ rest, breakage⟩ =
      readLengthFrom digits.length (sevens digits % 2 ^ 64) ⟨rest, breakage⟩
        (9 - digits.length + 1) := by
  rw [readLength, readLengthFrom_append all (Nat.le_of_lt few) (by decide), Nat.zero_add,
    Nat.zero_add, Nat.mul_zero, Nat.pow_zero, Nat.mul_one,
    ← Nat.sub_add_comm (Nat.le_of_lt_succ few)]

/-- A length of up to ten octets is read, but for the bits above the 64th. -/
theorem readLength_of_last {last : UInt8} (all : ∀ octet ∈ digits, continues octet)
    (few : digits.length < 10) (ends : continues last = false) :
    readLength ⟨digits ++ last :: rest, breakage⟩ =
      .found (sevens (digits ++ [last]) % 2 ^ 64) ⟨rest, breakage⟩ := by
  have low : last.toNat < 128 := Nat.not_le.1 (of_decide_eq_false ends)
  rw [readLength_append all few, readLengthFrom]
  simp only [low, if_true]
  rw [sevens_append, sevens, sevens, Nat.mod_add_mod, Nat.mul_zero, Nat.add_zero]

/-- A stream that ends inside a length is refused, unless it breaks there. -/
theorem readLength_of_cut (all : ∀ octet ∈ digits, continues octet) (few : digits.length < 10) :
    readLength ⟨digits, breakage⟩ =
      match breakage with
      | some error => .failed (.device error)
      | none => if digits.isEmpty then .ended else .failed (.decode .cutLength) := by
  have read : readLength ⟨digits ++ [], breakage⟩ = _ := readLength_append all few
  rw [List.append_nil, readLengthFrom] at read
  cases breakage <;> simpa using read

theorem next_of_readLength {source rest : ByteSource} {length : Nat}
    (found : readLength source = .found length rest) : next source = body length rest := by
  rw [next, found]
  rfl

/-- The reader keeps 64 bits of a length. -/
theorem next_eq_nextBy (source : ByteSource) : next source = nextBy (· % 2 ^ 64) source := by
  obtain ⟨octets, breakage⟩ := source
  have all : ∀ octet ∈ octets.takeWhile continues, continues octet :=
    fun _ member => List.mem_takeWhile_imp member
  have parts := List.takeWhile_append_dropWhile (p := continues) (l := octets)
  rw [nextBy, length?, lacking]
  dsimp only
  by_cases many : 10 ≤ (octets.takeWhile continues).length
  · have long := @readLength_of_long _ (octets.dropWhile continues) breakage all many
    rw [parts] at long
    rw [if_pos many, next, long]
    cases octets.dropWhile continues with
    | nil => rfl
    | cons last rest =>
        dsimp only
        rw [if_neg (Nat.not_lt.2 many)]
  · have few := Nat.not_le.1 many
    rw [if_neg many]
    cases behind : octets.dropWhile continues with
    | nil =>
        rw [behind, List.append_nil] at parts
        have cut := @readLength_of_cut _ breakage all few
        rw [parts] at cut
        rw [next, cut]
        cases breakage with
        | some error => rfl
        | none => cases octets <;> rfl
    | cons last rest =>
        have ends : continues last = false := by
          have first := List.head?_dropWhile_not continues octets
          simpa [behind] using first
        have found := @readLength_of_last _ rest breakage last all few ends
        rw [← behind, parts] at found
        dsimp only
        rw [next_of_readLength found, if_pos few]

theorem nextBy_congr {held other : Nat → Nat} {source : ByteSource}
    (same : ∀ value rest, length? source = some (value, rest) → held value = other value) :
    nextBy held source = nextBy other source := by
  rw [nextBy, nextBy]
  cases found : length? source with
  | none => rfl
  | some pair => exact congrArg (body · pair.2) (same pair.1 pair.2 found)

theorem body_of_large {length : Nat} (large : maxEntry < length) (source : ByteSource) :
    body length source = .failed (.decode (.entryTooLarge length)) := if_pos large

/-- Only a length that is too large is refused for that. -/
theorem body_eq_tooLarge_iff {length : Nat} {source : ByteSource} :
    (∃ other, body length source = .failed (.decode (.entryTooLarge other))) ↔
      maxEntry < length := by
  constructor
  · rintro ⟨other, refused⟩
    rw [body] at refused
    split at refused
    next large => exact large
    · split at refused
      · simp at refused
      · simp at refused
      · split at refused <;> simp at refused
  · exact fun large => ⟨length, body_of_large large source⟩

theorem next_of_length {source rest : ByteSource} {value : Nat}
    (found : length? source = some (value, rest)) : next source = body (value % 2 ^ 64) rest := by
  rw [next_eq_nextBy, nextBy, found]

/-- Keeping 64 bits makes no difference exactly to a length below 2 ^ 64. -/
theorem next_eq_nextBy_id_iff {source : ByteSource} :
    next source = nextBy id source ↔
      ∀ value rest, length? source = some (value, rest) → value < 2 ^ 64 := by
  constructor
  · intro same value rest found
    apply Nat.not_le.1
    intro large
    have refused : nextBy id source = .failed (.decode (.entryTooLarge value)) := by
      rw [nextBy, found]
      exact body_of_large (Nat.lt_of_lt_of_le (by decide) large) rest
    rw [next_of_length found, refused] at same
    have bits := body_eq_tooLarge_iff.1 ⟨value, same⟩
    rw [body_of_large bits] at same
    injection same with same
    injection same with same
    injection same with same
    exact Nat.not_le.2 (same ▸ Nat.mod_lt value (by decide)) large
  · intro small
    rw [next_eq_nextBy]
    exact nextBy_congr fun value rest found => Nat.mod_eq_of_lt (small value rest found)

/-- Of the value of a length 64 bits are kept, and as many octets as these say are read as one
entry; a length is refused if they exceed the limit, or if it has more than ten octets.  So every
length below 2 ^ 64 counts for what it is and no other does, and a length beyond the limit is
refused unless it loses bits and what is left of it is within.  A stream none of whose lengths
reaches 2 ^ 64 is read by the values of its lengths. -/
theorem next_keeps_64_bits (source : ByteSource) :
    next source = nextBy (· % 2 ^ 64) source ∧
    (next source = nextBy id source ↔
      ∀ value rest, length? source = some (value, rest) → value < 2 ^ 64) ∧
    (∀ value rest, length? source = some (value, rest) → maxEntry < value →
      ((∃ length, next source = .failed (.decode (.entryTooLarge length))) ↔
        maxEntry < value % 2 ^ 64)) ∧
    ((∀ place, StreamReader.Reaches read source place →
        ∀ value rest, length? place = some (value, rest) → value < 2 ^ 64) →
      ∀ count, (StreamReader.start source).calls read count =
        (StreamReader.start source).calls (fun place => (nextBy id place).reading) count) := by
  refine ⟨next_eq_nextBy source, next_eq_nextBy_id_iff, ?_, ?_⟩
  · intro value rest found _
    rw [next_of_length found]
    exact body_eq_tooLarge_iff
  · intro small count
    apply StreamReader.calls_congr
    intro place reached
    exact congrArg Next.reading (next_eq_nextBy_id_iff.2 (small place reached))

/-- A length of two gibibytes, in front of nothing. -/
def largeLength : Bytes := [0x80, 0x80, 0x80, 0x80, 0x08]

theorem next_keeps_64_bits_largeLength :
    length? (.ofBytes largeLength) = some (2 ^ 31, .ofBytes []) ∧ maxEntry < 2 ^ 31 ∧
      (∃ length, next (.ofBytes largeLength) = .failed (.decode (.entryTooLarge length))) ∧
      ∀ count, (StreamReader.start (.ofBytes largeLength)).calls read count =
        (StreamReader.start (.ofBytes largeLength)).calls
          (fun place => (nextBy id place).reading) count := by
  obtain ⟨-, -, refused, run⟩ := next_keeps_64_bits (.ofBytes largeLength)
  have found : length? (.ofBytes largeLength) = some (2 ^ 31, .ofBytes []) := by decide
  have failed := (refused _ _ found (by decide)).2 (by decide)
  refine ⟨found, by decide, failed, run fun place reached => ?_⟩
  obtain ⟨length, failed⟩ := failed
  have only : place = .ofBytes largeLength := by
    induction reached with
    | start => rfl
    | behind _ h ih =>
        rw [ih, read, failed] at h
        cases h
  rw [only, found]
  rintro _ _ ⟨⟩
  decide

/-- Ten octets whose value is 2 ^ 64. -/
def lostLength : Bytes := List.replicate 9 0x80 ++ [2]

/-- The guard against lengths beyond the limit does not hold for all of them. -/
theorem lengths_lose_bits :
    ¬∀ source value rest, length? source = some (value, rest) → maxEntry < value →
      ∃ error, next source = .failed (.decode error) := by
  intro guarded
  have found : length? (.ofBytes lostLength) = some (2 ^ 64, .ofBytes []) := by decide
  obtain ⟨error, failed⟩ := guarded _ _ _ found (by decide)
  have taken : next (.ofBytes lostLength) = .entry .blank (.ofBytes []) := by
    rw [next_of_length found]
    rfl
  rw [taken] at failed
  cases failed

end EntryStream
end TileBindery
