import TileBindery.Proofs.Json.Reading

/-!
# Documents in JSON

Texts, integers, arrays and objects are written without blanks, one inside the other.  A document is
read as what it was written for, by induction on how it is written.  An object that holds the fields
of a record, in order and without the absent ones, gives back what is in each field.
-/

namespace TileBindery
namespace JsonReader

open JsonWriter

/-- A text is the written form of a value. -/
inductive Spells : List Char → JsonValue → Prop where
  | text (text : String) : Spells (JsonWriter.string text) (.string (some text.toList))
  | integer (n : Int) : Spells (JsonWriter.integer n) (.number (.ofInt n))
  | array (items : List (List Char × JsonValue)) (each : ∀ item ∈ items, Spells item.1 item.2) :
      Spells (JsonWriter.array (items.map Prod.fst)) (.array (items.map Prod.snd))
  | object (members : List WrittenMember)
      (each : ∀ member ∈ members, Spells member.written member.found) :
      Spells (JsonWriter.object (members.map fun each => JsonWriter.member each.name each.written))
        (.object (members.map fun each => (some each.name.toList, each.found)))

/-- Behind a value the text ends, or an array or an object goes on or is closed. -/
def Stops (rest : List Char) : Prop := ∀ c ∈ rest.head?, c = ',' ∨ c = ']' ∨ c = '}'

theorem endsNumber_of_stops {rest : List Char} (stops : Stops rest) : EndsNumber rest := by
  intro c first
  rcases stops c first with rfl | rfl | rfl <;> decide

theorem stops_of_mark {close c : Char} (closes : close = ']' ∨ close = '}')
    (mark : c = ',' ∨ c = close) (rest : List Char) : Stops (c :: rest) := by
  rintro d ⟨⟩
  rcases mark with rfl | rfl
  · exact .inl rfl
  · exact .inr closes

/-! ### Lengths -/

theorem length_le_joined {item : List Char} {items : List (List Char)} (member : item ∈ items) :
    item.length ≤ (joined items).length := by
  induction items with
  | nil => exact absurd member List.not_mem_nil
  | cons first others induction =>
      cases others with
      | nil =>
          rw [List.mem_singleton.1 member]
          exact Nat.le_refl _
      | cons next more =>
          have shape : joined (first :: next :: more) = first ++ ',' :: joined (next :: more) := rfl
          rw [shape, List.length_append, List.length_cons]
          rcases List.mem_cons.1 member with rfl | behind
          · exact Nat.le_add_right _ _
          · exact Nat.le_trans (induction behind) (by omega)

/-- Between items there are commas, so there are hardly more items than characters. -/
theorem count_le_joined (items : List (List Char)) :
    items.length ≤ (joined items).length + 1 := by
  induction items with
  | nil => exact Nat.zero_le _
  | cons first others induction =>
      cases others with
      | nil => exact Nat.le_add_left 1 _
      | cons next more =>
          have shape : joined (first :: next :: more) = first ++ ',' :: joined (next :: more) := rfl
          simp only [shape, List.length_append, List.length_cons] at induction ⊢
          omega

/-! ### Reading what is written -/

/-- No blank and no end of an array stands in front. -/
def Opens (written : List Char) : Prop :=
  ∃ c others, written = c :: others ∧ c ≠ ']' ∧ c ∉ [' ', '\n', '\t', '\r']

/-- An array is read as it is written. -/
theorem value_array {fuel : Nat} {written : List (List Char)} {found : List JsonValue}
    (opens : ∀ first ∈ written.head?, Opens first)
    (reads : List.Forall₂ (ReadsItem ']' (value fuel)) written found)
    (enough : written.length ≤ fuel) (rest : List Char) :
    value (fuel + 1) (JsonWriter.array written ++ rest) = some (.array found, rest) := by
  cases written with
  | nil =>
      cases reads
      rfl
  | cons first others =>
      obtain ⟨c, behind, rfl, other, visible⟩ := opens first rfl
      have listed := listed_joined (List.cons_ne_nil _ _) reads (by decide) enough rest
      obtain ⟨text, shape⟩ : ∃ text, joined ((c :: behind) :: others) ++ ']' :: rest = c :: text := by
        cases others <;> exact ⟨_, rfl⟩
      have opened : JsonWriter.array ((c :: behind) :: others) ++ rest = '[' :: c :: text := by
        rw [← shape, JsonWriter.array, List.cons_append, List.cons_append, List.append_assoc]
        rfl
      rw [shape] at listed
      rw [opened, value, skipBlank_mark (by decide)]
      simp only [skipBlank_mark visible]
      split
      next same => exact absurd (List.cons.inj same).1 other
      next => rw [listed, Option.map_some]

theorem Spells.opens {written : List Char} {found : JsonValue} (spells : Spells written found) :
    Opens written := by
  cases spells with
  | text text => exact ⟨'"', _, rfl, by decide, by decide⟩
  | integer n =>
      obtain ⟨c, others, shape, front⟩ := integer_front n
      refine ⟨c, others, shape, ?_, ?_⟩
      · rintro rfl
        revert front
        decide
      · intro blank
        simp only [List.mem_cons, List.not_mem_nil, or_false] at blank
        rcases blank with rfl | rfl | rfl | rfl <;> revert front <;> decide
  | array items each => exact ⟨'[', _, rfl, by decide, by decide⟩
  | object members each => exact ⟨'{', _, rfl, by decide, by decide⟩

theorem Spells.value_append {written : List Char} {found : JsonValue}
    (spells : Spells written found) {fuel : Nat} (enough : written.length ≤ fuel + 1)
    {rest : List Char} (stops : Stops rest) :
    value (fuel + 1) (written ++ rest) = some (found, rest) := by
  induction spells generalizing fuel rest with
  | text text =>
      have read := string_text text rest
      simp only [JsonWriter.string, List.cons_append, List.append_assoc, List.nil_append, value,
        skipBlank_mark (c := '"') (by decide), read, Option.map_some]
  | integer n => exact value_integer fuel n (endsNumber_of_stops stops)
  | array items each induction =>
      simp only [JsonWriter.array, List.length_append, List.length_cons, List.length_nil] at enough
      obtain ⟨fuel, rfl⟩ : ∃ less, fuel = less + 1 := ⟨fuel - 1, by omega⟩
      have count := count_le_joined (items.map Prod.fst)
      refine value_array ?_ ?_ (by omega) rest
      · intro first is_first
        obtain ⟨item, member, rfl⟩ := List.mem_map.1 (List.mem_of_mem_head? is_first)
        exact (each item member).opens
      · rw [List.forall₂_map_left_iff, List.forall₂_map_right_iff, List.forall₂_same]
        intro item member c behind mark
        have short := length_le_joined (List.mem_map_of_mem (f := Prod.fst) member)
        exact induction item member (by omega) (stops_of_mark (.inl rfl) mark behind)
  | object members each induction =>
      simp only [JsonWriter.object, List.length_append, List.length_cons, List.length_nil] at enough
      obtain ⟨fuel, rfl⟩ : ∃ less, fuel = less + 1 := ⟨fuel - 1, by omega⟩
      have count := count_le_joined (members.map fun each => JsonWriter.member each.name each.written)
      rw [List.length_map] at count
      have reads : ∀ each ∈ members,
          ReadsItem '}' (value (fuel + 1)) each.written each.found := by
        intro each member c behind mark
        have short := length_le_joined (List.mem_map_of_mem
          (f := fun each : WrittenMember => JsonWriter.member each.name each.written) member)
        have inside : each.written.length ≤
            (JsonWriter.member each.name each.written).length := by
          rw [JsonWriter.member, List.length_append, List.length_cons]
          omega
        exact induction each member (by omega) (stops_of_mark (.inr rfl) mark behind)
      by_cases none : members = []
      · subst none
        rfl
      · exact value_object none reads (by omega) rest

/-- A document is read as what it was written for. -/
theorem Spells.parse {written : List Char} {found : JsonValue} (spells : Spells written found) :
    parse written = some found := by
  have stops : Stops [] := nofun
  have read := spells.value_append (Nat.le_succ written.length) stops
  rw [List.append_nil] at read
  rw [JsonReader.parse, read]
  rfl

end JsonReader

/-! ### Values of texts and numbers -/

namespace JsonValue

def ofText (text : String) : JsonValue := .string (some text.toList)

theorem text?_ofText (text : String) : (ofText text).text? = some text := by
  rw [ofText, text?, String.ofList_toList]

theorem integer?_ofInt {least greatest n : Int} (above : least ≤ n) (below : n ≤ greatest) :
    (JsonValue.number (.ofInt n)).integer? least greatest = some n := by
  rw [integer?, JsonNumber.integer?_ofInt, Option.filter_some, if_pos]
  simpa using ⟨above, below⟩

/-- Items that are read back one by one are read back together. -/
theorem mapM_map {α β γ : Type} {form : α → β} {read : β → Option γ} {back : α → γ}
    (items : List α) (each : ∀ item ∈ items, read (form item) = some (back item)) :
    (items.map form).mapM read = some (items.map back) := by
  induction items with
  | nil => rfl
  | cons first others induction =>
      rw [List.map_cons, List.mapM_cons, each first List.mem_cons_self,
        induction fun item member => each item (List.mem_cons_of_mem first member)]
      rfl

theorem members?_object {α : Type} (entries : List α) (name : α → String) (form : α → JsonValue) :
    (JsonValue.object (entries.map fun entry => (some (name entry).toList, form entry))).members? =
      some (entries.map fun entry => (name entry, form entry)) := by
  rw [members?]
  refine mapM_map entries ?_
  intro entry _
  simp only [Option.map_some, String.ofList_toList]

end JsonValue

/-! ### Records -/

namespace JsonReader

/-- A field of a record: unless it is absent, how it is written and what that stands for. -/
structure Slot where
  name : String
  content : Option (List Char × JsonValue)

namespace Slot

/-- A field that is always written. -/
def present (name : String) (written : List Char) (found : JsonValue) : Slot :=
  ⟨name, some (written, found)⟩

/-- A field that is left out when it is absent. -/
def optional {α : Type} (name : String) (write : α → List Char) (form : α → JsonValue)
    (item : Option α) : Slot :=
  ⟨name, item.map fun item => (write item, form item)⟩

def member? (slot : Slot) : Option WrittenMember :=
  slot.content.map fun content => ⟨slot.name, content.1, content.2⟩

/-- How a field is written. -/
def written (slot : Slot) : List (List Char) :=
  slot.member?.toList.map fun each => JsonWriter.member each.name each.written

theorem written_present (name : String) (written : List Char) (found : JsonValue) :
    (present name written found).written = [JsonWriter.member name written] := rfl

theorem written_optional {α : Type} (name : String) (write : α → List Char)
    (form : α → JsonValue) (item : Option α) :
    (optional name write form item).written = JsonWriter.optionalMember name write item := by
  cases item <;> rfl

/-- What a field holds. -/
def value (slot : Slot) : Option JsonValue := slot.content.map (·.2)

theorem value_present (name : String) (written : List Char) (found : JsonValue) :
    (present name written found).value = some found := rfl

theorem value_optional {α : Type} (name : String) (write : α → List Char)
    (form : α → JsonValue) (item : Option α) :
    (optional name write form item).value = item.map form := by
  cases item <;> rfl

/-- What is written of a field, if anything is, stands for its value. -/
def Spelled (slot : Slot) : Prop := ∀ content ∈ slot.content, Spells content.1 content.2

theorem spelled_present {written : List Char} {found : JsonValue} (name : String)
    (spells : Spells written found) : (present name written found).Spelled := by
  rintro content ⟨⟩
  exact spells

theorem spelled_optional {α : Type} {write : α → List Char} {form : α → JsonValue}
    (name : String) {item : Option α} (each : ∀ value ∈ item, Spells (write value) (form value)) :
    (optional name write form item).Spelled := by
  intro content held
  obtain ⟨value, is_item, rfl⟩ := Option.map_eq_some_iff.1 held
  exact each value is_item

/-- The object that holds the fields that are present. -/
def record (slots : List Slot) : JsonValue :=
  .object ((slots.filterMap member?).map fun each => (some each.name.toList, each.found))

theorem spells_record {slots : List Slot} (each : ∀ slot ∈ slots, slot.Spelled) :
    Spells (JsonWriter.object (slots.flatMap written)) (record slots) := by
  have spelled := Spells.object (slots.filterMap member?) <| by
    intro found member
    obtain ⟨slot, slot_mem, same⟩ := List.mem_filterMap.1 member
    obtain ⟨content, held, rfl⟩ := Option.map_eq_some_iff.1 same
    exact each slot slot_mem content held
  have shape : (slots.filterMap member?).map
      (fun each => JsonWriter.member each.name each.written) = slots.flatMap written := by
    rw [List.filterMap_eq_flatMap_toList, List.map_flatMap]
    rfl
  rwa [shape] at spelled

/-- The names and values of the fields that are present. -/
def found (slots : List Slot) : List (String × JsonValue) :=
  (slots.filterMap member?).map fun each => (each.name, each.found)

theorem found_cons (slot : Slot) (slots : List Slot) :
    found (slot :: slots) =
      (slot.content.map fun content => (slot.name, content.2)).toList ++ found slots := by
  obtain ⟨name, _ | content⟩ := slot <;> rfl

theorem filter_found_of_other {slots : List Slot} {other : String}
    (missing : other ∉ slots.map name) : (found slots).filter (·.1 = other) = [] := by
  induction slots with
  | nil => rfl
  | cons slot slots induction =>
      rw [List.map_cons, List.mem_cons, not_or] at missing
      rw [found_cons, List.filter_append, induction missing.2]
      cases slot.content with
      | none => rfl
      | some content => simp [Ne.symm missing.1]

theorem filter_found {slots : List Slot} (distinct : (slots.map name).Nodup) {slot : Slot}
    (held : slot ∈ slots) :
    (found slots).filter (·.1 = slot.name) =
      (slot.content.map fun content => (slot.name, content.2)).toList := by
  induction slots with
  | nil => exact absurd held List.not_mem_nil
  | cons first others induction =>
      rw [List.map_cons, List.nodup_cons] at distinct
      rw [found_cons, List.filter_append]
      rcases List.mem_cons.1 held with rfl | behind
      · rw [filter_found_of_other distinct.1, List.append_nil]
        cases slot.content <;> simp
      · have other : first.name ≠ slot.name := by
          intro same
          apply distinct.1
          rw [same]
          exact List.mem_map_of_mem behind
        rw [induction distinct.2 behind]
        cases first.content with
        | none => rfl
        | some content => simp [other]

/-- A record gives back what is in each of its fields. -/
theorem fields?_record {slots : List Slot} (distinct : (slots.map name).Nodup) :
    (record slots).fields? (slots.map name) =
      some (slots.map value) := by
  have members : (record slots).members? = some (found slots) :=
    JsonValue.members?_object (slots.filterMap member?) (·.name) (·.found)
  have fields : (slots.map name).mapM (fun name => JsonValue.member? name (found slots)) =
      some (slots.map value) := by
    refine JsonValue.mapM_map slots ?_
    intro slot held
    rw [JsonValue.member?, filter_found distinct held, value]
    cases slot.content <;> rfl
  change ((record slots).members?.bind fun members =>
    (slots.map name).mapM fun name => JsonValue.member? name members) = _
  rw [members]
  exact fields

end Slot
end JsonReader
end TileBindery
