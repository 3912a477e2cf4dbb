import TileBindery.Digits

/-!
# JSON values

A JSON text as data.  Objects keep their members in order and may repeat a name; numbers keep their
digits; a text that spells half of a surrogate pair is a value without text.  What a record makes of
repeated members, of missing ones and of numbers out of range is decided where the record is read.
-/

namespace TileBindery

structure JsonNumber where
  /-- A minus sign stands in front. -/
  negative : Bool
  /-- Digits in front of the point. -/
  integer : List Nat
  /-- Digits behind the point, if there is one. -/
  fraction : Option (List Nat)
  /-- Whether the exponent is negative, and its digits, if there is one. -/
  exponent : Option (Bool × List Nat)
  deriving DecidableEq, Repr

inductive JsonValue where
  | null
  | bool (value : Bool)
  | number (value : JsonNumber)
  /-- A text, or none where its escapes spell no characters. -/
  | string (text : Option (List Char))
  | array (items : List JsonValue)
  | object (members : List (Option (List Char) × JsonValue))
  deriving Repr

namespace JsonValue

def isNull : JsonValue → Bool
  | .null => true
  | _ => false

def text? : JsonValue → Option String
  | .string (some text) => some (String.ofList text)
  | _ => none

/-- An optional value, absent if it is `null`. -/
def optional {α : Type} (read : JsonValue → Option α) (value : JsonValue) : Option (Option α) :=
  if value.isNull then some none else (read value).map some

def items? : JsonValue → Option (List JsonValue)
  | .array items => some items
  | _ => none

/-- The members of an object whose names are all texts. -/
def members? : JsonValue → Option (List (String × JsonValue))
  | .object members =>
      members.mapM fun (name, value) => name.map fun name => (String.ofList name, value)
  | _ => none

/-- The value of a member that occurs at most once. -/
def member? (name : String) (members : List (String × JsonValue)) : Option (Option JsonValue) :=
  match members.filter fun member => member.1 = name with
  | [] => some none
  | [member] => some (some member.2)
  | _ => none

/-- The fields of a record, in the order of `names`.  A record is an object, whose other members do
not matter, or a list of its first fields. -/
def fields? (names : List String) (value : JsonValue) : Option (List (Option JsonValue)) :=
  match value with
  | .array items =>
      if names.length < items.length then none
      else some (items.map some ++ List.replicate (names.length - items.length) none)
  | value => do
      let members ← value.members?
      names.mapM fun name => member? name members

end JsonValue

namespace JsonNumber

/-- The integer of a number that is written without point and exponent.  A negative zero is no
integer. -/
def integer? (number : JsonNumber) : Option Int :=
  if number.fraction.isSome ∨ number.exponent.isSome then none
  else
    let value : Nat := Digits.value 10 number.integer
    if number.negative then if value = 0 then none else some (-(value : Int)) else some (value : Int)

end JsonNumber

namespace JsonValue

def integer? (least greatest : Int) : JsonValue → Option Int
  | .number found => found.integer?.filter fun value => least ≤ value ∧ value ≤ greatest
  | _ => none

end JsonValue
end TileBindery
