import TileBindery.Text.Utf8
import TileBindery.Binary64.Basic

/-!
# Tagged binary messages: scalars and keys

A message is a sequence of fields, each a key followed by a value.  The key names the field's number
and how long the value is: a varint, four or eight octets, a length in front, or a group between two
marks.  This module reads the scalars and skips what a message does not know.

A reader consumes octets of the whole record.  The end of an enclosing message does not stop an
inner read; it is only checked afterwards.
-/

namespace TileBindery
namespace Wire

/-- How the length of a value is found. -/
inductive ValueType where
  /-- Seven bits an octet, until an octet without its highest bit. -/
  | varint
  | fixed64
  /-- A length and as many octets. -/
  | delimited
  /-- The opening mark of a group. -/
  | groupStart
  /-- The closing mark of a group. -/
  | groupEnd
  | fixed32
  deriving DecidableEq, Repr

namespace ValueType

/-- The number of a value type inside a key. -/
def code : ValueType → Nat
  | .varint => 0
  | .fixed64 => 1
  | .delimited => 2
  | .groupStart => 3
  | .groupEnd => 4
  | .fixed32 => 5

def ofCode? : Nat → Option ValueType
  | 0 => some .varint
  | 1 => some .fixed64
  | 2 => some .delimited
  | 3 => some .groupStart
  | 4 => some .groupEnd
  | 5 => some .fixed32
  | _ => none

/-- The name of a value type in a message. -/
def name : ValueType → String
  | .varint => "Varint"
  | .fixed64 => "SixtyFourBit"
  | .delimited => "LengthDelimited"
  | .groupStart => "StartGroup"
  | .groupEnd => "EndGroup"
  | .fixed32 => "ThirtyTwoBit"

theorem ofCode?_code (type : ValueType) : ofCode? type.code = some type := by
  cases type <;> rfl

end ValueType

/-- The key in front of a field's value. -/
structure Key where
  field : Nat
  type : ValueType
  deriving DecidableEq, Repr

/-- Reasons why octets are no message. -/
inductive Reason where
  /-- A varint that is cut off, too long or too large. -/
  | badVarint
  | keyTooLarge (key : Nat)
  /-- A value type that does not exist. -/
  | unknownType (code : Nat)
  | fieldZero
  /-- A value of another type than the field has. -/
  | typeMismatch (actual expected : ValueType)
  /-- A value that runs past the end of the record. -/
  | underflow
  /-- Fields that run past the end of their message. -/
  | overrun
  | notUtf8
  /-- A closing mark that closes no open group. -/
  | strayGroupEnd
  | tooDeep
  deriving DecidableEq, Repr

def Reason.message : Reason → String
  | .badVarint => "invalid varint"
  | .keyTooLarge key => "invalid key value: " ++ toString key
  | .unknownType code => "invalid wire type value: " ++ toString code
  | .fieldZero => "invalid tag value: 0"
  | .typeMismatch actual expected =>
      "invalid wire type: " ++ actual.name ++ " (expected " ++ expected.name ++ ")"
  | .underflow => "buffer underflow"
  | .overrun => "delimited length exceeded"
  | .notUtf8 => "invalid string value: data is not UTF-8 encoded"
  | .strayGroupEnd => "unexpected end group tag"
  | .tooDeep => "recursion limit reached"

/-- A reason with the fields it lies in, innermost first. -/
structure Fault where
  /-- Names of the enclosing fields. -/
  location : List String
  reason : Reason
  deriving DecidableEq, Repr

def Fault.message (fault : Fault) : String :=
  "failed to decode Protobuf message: " ++
    String.join (fault.location.map (· ++ ": ")) ++ fault.reason.message

/-- The octets of a record that are not read yet, with their number at hand. -/
structure Unread where
  octets : Bytes
  size : Nat
  size_eq : size = octets.length

namespace Unread

def ofBytes (octets : Bytes) : Unread := ⟨octets, octets.length, rfl⟩

/-- What is left behind the first `count` octets. -/
def drop (unread : Unread) (count : Nat) : Unread :=
  ⟨unread.octets.drop count, unread.size - count, by simp [unread.size_eq]⟩

@[ext]
theorem ext {first second : Unread} (h : first.octets = second.octets) : first = second := by
  obtain ⟨octets, size, size_eq⟩ := first
  obtain ⟨octets', size', size_eq'⟩ := second
  subst h size_eq size_eq'
  rfl

/-- Behind the octets in front stands what follows them. -/
theorem drop_ofBytes_append (front rest : Bytes) :
    (ofBytes (front ++ rest)).drop front.length = ofBytes rest :=
  ext (by simp [ofBytes, drop])

end Unread

/-- A computation that consumes octets from the front of a record. -/
abbrev Reader (α : Type) := StateT Unread (Except Fault) α

/-- Fail where no field encloses the fault. -/
def refuse {α : Type} (reason : Reason) : Reader α := throw ⟨[], reason⟩

/-- Place the faults of a reader inside a field. -/
def within {α : Type} (field : String) (reader : Reader α) : Reader α := fun unread =>
  match reader unread with
  | .ok result => .ok result
  | .error fault => .error { fault with location := fault.location ++ [field] }

/-- The varint of at most `limit` octets at the front, and the number of its octets. -/
def frontVarint : (limit : Nat) → Bytes → Option (Nat × Nat)
  | 0, _ => none
  | _ + 1, [] => none
  | limit + 1, octet :: rest =>
      let n := octet.toNat
      if n < 128 then some (n, 1)
      else (frontVarint limit rest).map fun (high, size) => (n % 128 + 128 * high, size + 1)

/-- Read a varint of 64 bits: at most ten octets, the tenth of which holds one bit. -/
def readVarint : Reader Nat := fun unread =>
  match frontVarint 10 unread.octets with
  | some (value, size) =>
      if value < 2 ^ 64 then .ok (value, unread.drop size) else .error ⟨[], .badVarint⟩
  | none => .error ⟨[], .badVarint⟩

def varint (n : Nat) : Bytes :=
  if h : n < 128 then [UInt8.ofNat n]
  else UInt8.ofNat (n % 128 + 128) :: varint (n / 128)
termination_by n
decreasing_by omega

def readKey : Reader Key := do
  let key ← readVarint
  if 2 ^ 32 ≤ key then refuse (.keyTooLarge key)
  else
    match ValueType.ofCode? (key % 8) with
    | none => refuse (.unknownType (key % 8))
    | some type => if key / 8 = 0 then refuse .fieldZero else pure ⟨key / 8, type⟩

def putKey (field : Nat) (type : ValueType) : Bytes := varint (field * 8 + type.code)

def readOctets (count : Nat) : Reader Bytes := fun unread =>
  if unread.size < count then .error ⟨[], .underflow⟩
  else .ok (unread.octets.take count, unread.drop count)

/-- Refuse a value of another type. -/
def expect (expected actual : ValueType) : Reader Unit :=
  if actual = expected then pure () else refuse (.typeMismatch actual expected)

/-- Read a 32-bit integer, of which a varint gives the low bits. -/
def readInt32 (type : ValueType) : Reader Int32 := do
  expect .varint type
  let value ← readVarint
  pure (Int32.ofNat value)

/-- The varint of a 32-bit integer, sign-extended to 64 bits. -/
def putInt32 (value : Int32) : Bytes := varint (value.toInt % 2 ^ 64).toNat

def readDouble (type : ValueType) : Reader Binary64 := do
  expect .fixed64 type
  let octets ← readOctets 8
  pure ⟨UInt64.ofNat (Bytes.fromLittleEndian octets)⟩

def putDouble (value : Binary64) : Bytes := Bytes.littleEndian 8 value.bits.toNat

/-- Read octets with their length in front. -/
def readBytes (type : ValueType) : Reader Bytes := do
  expect .delimited type
  let length ← readVarint
  readOctets length

/-- Octets with their length in front. -/
def putBytes (octets : Bytes) : Bytes := varint octets.length ++ octets

def readText (type : ValueType) : Reader String := do
  let octets ← readBytes type
  match Utf8.decode octets with
  | .ok text => pure (String.ofList text)
  | .error _ => refuse .notUtf8

/-- A text with its length in front. -/
def putText (text : String) : Bytes := putBytes (Utf8.encode text.toList)

/-- Nested messages, map entries and groups that may still be entered at the start of a record. -/
def maxDepth : Nat := 100

/-- Skip the fields of a group up to its closing mark.  `skip` skips one inner field. -/
def skipGroup (skip : Key → Reader Unit) (field : Nat) : (fuel : Nat) → Reader Unit
  | 0 => refuse .badVarint
  | fuel + 1 => do
      let key ← readKey
      if key.type = .groupEnd then
        if key.field = field then pure () else refuse .strayGroupEnd
      else
        skip key
        skipGroup skip field fuel

def skipValue : (depth : Nat) → Key → Reader Unit
  | 0, _ => refuse .tooDeep
  | depth + 1, key =>
      match key.type with
      | .varint => do
          let _ ← readVarint
          pure ()
      | .fixed32 => do
          let _ ← readOctets 4
          pure ()
      | .fixed64 => do
          let _ ← readOctets 8
          pure ()
      | .delimited => do
          let length ← readVarint
          let _ ← readOctets length
          pure ()
      | .groupStart => do
          let unread ← get
          skipGroup (skipValue depth) key.field (unread.size + 1)
      | .groupEnd => refuse .strayGroupEnd

/-- Read fields into `message` until at most `stop` octets are left. -/
def readFields {μ : Type} (field : Key → μ → Reader μ) (stop : Nat) : (fuel : Nat) → μ → Reader μ
  | 0, message => pure message
  | fuel + 1, message => do
      let unread ← get
      if unread.size ≤ stop then pure message
      else
        let key ← readKey
        let message ← field key message
        readFields field stop fuel message

/-- Read a message with its length in front into `message`. -/
def readDelimited {μ : Type} (field : Key → μ → Reader μ) (message : μ) : Reader μ := do
  let length ← readVarint
  let unread ← get
  if unread.size < length then refuse .underflow
  else
    let stop := unread.size - length
    let message ← readFields field stop length message
    let behind ← get
    if behind.size = stop then pure message else refuse .overrun

/-- Read a nested message into `message`.  `field` reads one of its fields, given the depth left. -/
def readMessage {μ : Type} (field : Nat → Key → μ → Reader μ) (depth : Nat) (type : ValueType)
    (message : μ) : Reader μ := do
  expect .delimited type
  match depth with
  | 0 => refuse .tooDeep
  | depth + 1 => readDelimited (field depth) message

def readEntryField {α : Type} (value : ValueType → Reader α) (depth : Nat) (key : Key)
    (entry : String × α) : Reader (String × α) :=
  match key.field with
  | 1 => do
      let name ← readText key.type
      pure (name, entry.2)
  | 2 => do
      let item ← value key.type
      pure (entry.1, item)
  | _ => do
      skipValue depth key
      pure entry

/-- Read a map entry, whose missing parts have defaults.  The type of its key is not looked at. -/
def readEntry {α : Type} (value : ValueType → Reader α) (default : α) (depth : Nat) :
    Reader (String × α) :=
  match depth with
  | 0 => refuse .tooDeep
  | depth + 1 => readDelimited (readEntryField value depth) ("", default)

/-- Read the octets of a whole message into `message`. -/
def readWhole {μ : Type} (field : Nat → Key → μ → Reader μ) (message : μ) (octets : Bytes) :
    Except Fault μ :=
  (readFields (field maxDepth) 0 octets.length message).run' (Unread.ofBytes octets)

end Wire
end TileBindery
