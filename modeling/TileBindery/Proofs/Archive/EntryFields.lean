import TileBindery.Archive.EntryFormat
import TileBindery.Proofs.TextMap
import TileBindery.Proofs.Wire.Reading

/-!
# Fields of entries are read as they were written

Each way of writing a field with the message that reading it gives: fields that may be absent, fields
that are left out for their defaults, nested messages and maps.  A message is described by a function
of the field's value, which all its other fields are fixed in.
-/

namespace TileBindery

namespace EntryFormat

open Wire

variable {α μ : Type}

/-- A field that may be absent stays absent if it is. -/
theorem fields_putOption (field : Key → μ → Reader μ) (number : Nat) (type : ValueType)
    (value : α → Bytes) (item : Option α) (set : Option α → μ)
    (valid : 0 < number ∧ number < 2 ^ 29)
    (read : ∀ found, Reads (field ⟨number, type⟩ (set none)) (value found) (set (some found))) :
    Fields field (putOption number type value item) (set none) (set item) := by
  cases item with
  | none => exact .nil _
  | some found => exact .ofKey valid (read found)

/-- A field that is left out for its default keeps it. -/
theorem fields_unless {field : Key → μ → Reader μ} {octets : Bytes} {before after : μ}
    {left : Prop} [Decidable left]
    (default : left → before = after) (fields : ¬left → Fields field octets before after) :
    Fields field (if left then [] else octets) before after := by
  split
  next out =>
    rw [default out]
    exact .nil after
  next given => exact fields given

theorem fields_putNonzero (field : Key → μ → Reader μ) (number : Nat) (value : Int32)
    (set : Int32 → μ) (valid : 0 < number ∧ number < 2 ^ 29)
    (read : Reads (field ⟨number, .varint⟩ (set 0)) (putInt32 value) (set value)) :
    Fields field (putNonzero number value) (set 0) (set value) := by
  refine fields_unless ?_ fun _ => .ofKey valid read
  rintro rfl
  rfl

theorem fields_putNonempty (field : Key → μ → Reader μ) (number : Nat) (text : String)
    (set : String → μ) (valid : 0 < number ∧ number < 2 ^ 29)
    (read : Reads (field ⟨number, .delimited⟩ (set "")) (putText text) (set text)) :
    Fields field (putNonempty number text) (set "") (set text) := by
  refine fields_unless ?_ fun _ => .ofKey valid read
  rintro rfl
  rfl

/-- What is left of a double that is left out when it is zero of either sign. -/
def plainZero (value : Binary64) : Binary64 := if value.isZero then .zero else value

theorem fields_putNonzeroDouble (field : Key → μ → Reader μ) (number : Nat) (value : Binary64)
    (set : Binary64 → μ) (valid : 0 < number ∧ number < 2 ^ 29)
    (read : Reads (field ⟨number, .fixed64⟩ (set .zero)) (putDouble value) (set value)) :
    Fields field (putNonzeroDouble number value) (set .zero) (set (plainZero value)) := by
  refine fields_unless ?_ fun given => ?_
  · intro zero
    rw [plainZero, if_pos zero]
  · rw [plainZero, if_neg given]
    exact .ofKey valid read

/-- Every message of a list is read in order. -/
theorem fields_messages (field : Key → μ → Reader μ) (number : Nat) (value : α → Bytes)
    (items front : List α) (set : List α → μ)
    (valid : 0 < number ∧ number < 2 ^ 29)
    (read : ∀ front item, Reads (field ⟨number, .delimited⟩ (set front)) (putBytes (value item))
      (set (front ++ [item]))) :
    Fields field (items.flatMap fun item => putMessage number (value item)) (set front)
      (set (front ++ items)) := by
  induction items generalizing front with
  | nil =>
      rw [List.append_nil]
      exact .nil _
  | cons item rest ih =>
      have first := Fields.ofKey valid (read front item)
      have later := @ih (front ++ [item])
      rw [List.append_assoc, List.singleton_append] at later
      exact first.append later

/-! ### Maps -/

/-- An entry of a map is read if its value is, with a text for its key. -/
theorem reads_mapEntry {read : ValueType → Reader α} {default item : α} {value : Bytes}
    {depth : Nat} (name : String)
    (fields : Fields (readEntryField read depth) value (name, default) (name, item)) :
    Reads (readEntry read default (depth + 1)) (putBytes (putNonempty 1 name ++ value))
      (name, item) := by
  have key : Fields (readEntryField read depth) (putNonempty 1 name) ("", default) (name, default) :=
    fields_putNonempty _ 1 name (fun name => (name, default)) (by decide)
      ((reads_putText name).map fun name => (name, default))
  exact (key.append fields).readDelimited

/-- All entries of a map are read into an empty one. -/
theorem fields_putMap (field : Key → μ → Reader μ) (number : Nat) (value : α → Bytes)
    (map : TextMap α) (set : TextMap α → μ)
    (valid : 0 < number ∧ number < 2 ^ 29)
    (read : ∀ (front : TextMap α) (entry : String × α),
      Reads (field ⟨number, .delimited⟩ (set front))
        (putBytes (putNonempty 1 entry.1 ++ value entry.2)) (set (front.insert entry.1 entry.2))) :
    Fields field (putMap number value map) (set .empty) (set map) := by
  have all (entries : List (String × α)) (front : TextMap α) :
      Fields field
        (entries.flatMap fun entry => putMessage number (putNonempty 1 entry.1 ++ value entry.2))
        (set front) (set (entries.foldl (fun map entry => map.insert entry.1 entry.2) front)) := by
    induction entries generalizing front with
    | nil => exact .nil _
    | cons entry rest ih => exact (Fields.ofKey valid (read front entry)).append (ih _)
  have whole := all map.entries .empty
  rwa [← TextMap.ofList, TextMap.ofList_entries] at whole

end EntryFormat
end TileBindery
