import TileBindery.Bytes

/-!
# Fast hashes

Two hashes of the xxHash family, both with seed zero: one of a single word, which spreads tiles over
shards, and one of any number of octets, which guards the content of a compressed frame.
-/

namespace TileBindery
namespace XxHash

def rotate (word : UInt64) (count : UInt64) : UInt64 :=
  (word <<< count) ||| (word >>> (64 - count))

/-- The constant that the hash of a word mixes into it: two words of the default secret. -/
def secretMask : UInt64 := 0x1CAD21F72C81017C ^^^ 0xDB979083E96DD4DE

/-- The odd multiplier of the hash of a word. -/
def multiplier : UInt64 := 0x9FB21C651E98DF25

/-- The XXH3 hash of four octets, given as one little-endian number. -/
def ofWord (word : UInt32) : UInt64 :=
  let input := word.toUInt64
  let keyed := (input + (input <<< 32)) ^^^ secretMask
  let mixed := (keyed ^^^ rotate keyed 49 ^^^ rotate keyed 24) * multiplier
  let mixed := (mixed ^^^ ((mixed >>> 35) + 4)) * multiplier
  mixed ^^^ (mixed >>> 28)

/-! ### The hash of any number of octets -/

/-- The multiplier of finished words. -/
def prime₁ : UInt64 := 0x9E3779B185EBCA87

/-- The multiplier of incoming words. -/
def prime₂ : UInt64 := 0xC2B2AE3D27D4EB4F

def prime₃ : UInt64 := 0x165667B19E3779F9

def prime₄ : UInt64 := 0x85EBCA77C2B2AE63

/-- The multiplier of single octets, and the start for few octets. -/
def prime₅ : UInt64 := 0x27D4EB2F165667C5

/-- The word of little-endian octets. -/
def read (octets : Bytes) : UInt64 := UInt64.ofNat (Bytes.fromLittleEndian octets)

def feed (lane word : UInt64) : UInt64 := rotate (lane + word * prime₂) 31 * prime₁

/-- The four lanes into which long sequences are dealt word by word. -/
structure Lanes where
  /-- The first of every four words. -/
  first : UInt64
  second : UInt64
  third : UInt64
  fourth : UInt64

namespace Lanes

/-- The lanes before the first word. -/
def start : Lanes := ⟨prime₁ + prime₂, prime₂, 0, 0 - prime₁⟩

/-- Take four words into the lanes. -/
def feed (lanes : Lanes) (octets : Bytes) : Lanes where
  first := XxHash.feed lanes.first (read (octets.take 8))
  second := XxHash.feed lanes.second (read ((octets.drop 8).take 8))
  third := XxHash.feed lanes.third (read ((octets.drop 16).take 8))
  fourth := XxHash.feed lanes.fourth (read ((octets.drop 24).take 8))

def join (lanes : Lanes) : UInt64 :=
  let sum := rotate lanes.first 1 + rotate lanes.second 7 + rotate lanes.third 12 +
    rotate lanes.fourth 18
  [lanes.first, lanes.second, lanes.third, lanes.fourth].foldl
    (fun sum lane => (sum ^^^ XxHash.feed 0 lane) * prime₁ + prime₄) sum

end Lanes

/-- Deal out four words at a time.  Gives the lanes and the octets behind the last four words. -/
def deal (lanes : Lanes) (octets : Bytes) : Lanes × Bytes :=
  match taken : Bytes.take? 32 octets with
  | some (front, rest) =>
      have := Bytes.length_rest_lt taken
      deal (lanes.feed front) rest
  | none => (lanes, octets)
termination_by octets.length

/-- Take whole words.  Gives the sum and the octets behind the last word. -/
def words (sum : UInt64) (octets : Bytes) : UInt64 × Bytes :=
  match taken : Bytes.take? 8 octets with
  | some (front, rest) =>
      have := Bytes.length_rest_lt taken
      words (rotate (sum ^^^ feed 0 (read front)) 27 * prime₁ + prime₄) rest
  | none => (sum, octets)
termination_by octets.length

/-- Take fewer octets than make a word: half a word, if there is one, then one by one. -/
def tail (sum : UInt64) (octets : Bytes) : UInt64 :=
  let (sum, octets) := match Bytes.take? 4 octets with
    | some (front, rest) =>
        (rotate (sum ^^^ (read front * prime₁)) 23 * prime₂ + prime₃, rest)
    | none => (sum, octets)
  octets.foldl (fun sum octet => rotate (sum ^^^ (octet.toUInt64 * prime₅)) 11 * prime₁) sum

/-- Spread every bit over the whole word. -/
def spread (sum : UInt64) : UInt64 :=
  let sum := (sum ^^^ (sum >>> 33)) * prime₂
  let sum := (sum ^^^ (sum >>> 29)) * prime₃
  sum ^^^ (sum >>> 32)

/-- The XXH64 hash of a sequence of octets. -/
def ofBytes (octets : Bytes) : UInt64 :=
  let (lanes, rest) := deal .start octets
  let sum := if Bytes.reaches 32 octets then lanes.join else prime₅
  let (sum, rest) := words (sum + UInt64.ofNat octets.length) rest
  spread (tail sum rest)

end XxHash
end TileBindery
