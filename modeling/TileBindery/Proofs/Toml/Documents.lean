import Mathlib.Data.List.TakeDrop
import TileBindery.Proofs.Toml.Values

/-!
# Documents in TOML are read as they are written

A document holds fields of its root, then sections behind headers.  Fields that are absent are left
out.  If no name stands twice, the table that is read gives back what is in each field, and each
section gives back its own.
-/

namespace TileBindery
namespace TomlReader

/-! ### Statements -/

theorem skipBlank_visible {c : Char} (visible : c ∉ [' ', '\t']) (rest : List Char) :
    skipBlank (c :: rest) = c :: rest := by
  refine List.dropWhile_cons_of_neg ?_
  simpa [isBlank] using visible

/-- A name that is written without quotes. -/
def isBare (name : String) : Bool := !name.toList.isEmpty && name.toList.all isNameChar

section Names

variable {name : String} (bare : isBare name)

include bare in
theorem all_of_isBare : ∀ c ∈ name.toList, isNameChar c :=
  List.all_eq_true.1 (Bool.and_eq_true_iff.1 bare).2

include bare in
theorem front_of_isBare : ∃ c others, name.toList = c :: others ∧ isNameChar c := by
  have nonempty : name.toList ≠ [] := by simpa using (Bool.and_eq_true_iff.1 bare).1
  obtain ⟨c, others, shape⟩ := List.exists_cons_of_ne_nil nonempty
  exact ⟨c, others, shape, all_of_isBare bare c (shape ▸ List.mem_cons_self)⟩

include bare in
theorem isNameChar_front {c : Char} {rest behind : List Char}
    (shape : name.toList ++ rest = c :: behind) : isNameChar c := by
  obtain ⟨first, others, front, letter⟩ := front_of_isBare bare
  rw [front] at shape
  rwa [← (List.cons.inj shape).1]

include bare in
/-- A name is read up to a character that is in no name. -/
theorem namePart_name {c : Char} (mark : isNameChar c = false) (rest : List Char) :
    namePart (name.toList ++ c :: rest) = some (name.toList, c :: rest) := by
  obtain ⟨first, others, front, -⟩ := front_of_isBare bare
  have taken : (name.toList ++ c :: rest).span isNameChar = (name.toList, c :: rest) := by
    rw [List.span_eq_takeWhile_dropWhile, List.takeWhile_append_of_pos (all_of_isBare bare),
      List.dropWhile_append_of_pos (all_of_isBare bare), List.takeWhile_cons_of_neg (by simp [mark]),
      List.dropWhile_cons_of_neg (by simp [mark]), List.append_nil]
  rw [namePart.eq_3, taken, front]
  all_goals
    intro _ shape
    cases isNameChar_front bare shape

include bare in
theorem path_name {c d : Char} {rest others : List Char}
    (mark : isNameChar c = false) (behind : skipBlank (c :: rest) = d :: others) (single : d ≠ '.') :
    path (name.toList ++ c :: rest) = some ([name], d :: others) := by
  obtain ⟨first, more, shape, letter⟩ := front_of_isBare bare
  have front : skipBlank (name.toList ++ c :: rest) = name.toList ++ c :: rest := by
    rw [shape]
    refine skipBlank_visible ?_ _
    intro blank
    simp only [List.mem_cons, List.not_mem_nil, or_false] at blank
    rcases blank with rfl | rfl <;> cases letter
  rw [path, maxDepth, pathFrom, front, namePart_name bare mark]
  simp only [Option.bind_eq_bind, Option.bind_some, behind, String.ofList_toList]
  split
  next same => exact absurd (List.cons.inj same).1 single
  next => rfl

end Names

variable {draft later : TomlDraft} {name : String}

theorem statement_entry (bare : isBare name) {written : List Char} {found : TomlValue}
    (spells : Spells written found) (assigned : draft.assign [name] found = some later)
    (rest : List Char) :
    statement (TomlWriter.entry name written ++ rest) draft = some (later, '\n' :: rest) := by
  obtain ⟨c, more, front, visible⟩ := spells.front
  have line : TomlWriter.entry name written ++ rest =
      name.toList ++ ' ' :: '=' :: ' ' :: (written ++ '\n' :: rest) := by
    rw [TomlWriter.entry, List.append_assoc, List.append_assoc, List.append_assoc]
    rfl
  have value_front : skipBlank (' ' :: (written ++ '\n' :: rest)) = written ++ '\n' :: rest := by
    rw [front]
    change skipBlank (c :: (more ++ '\n' :: rest)) = _
    refine skipBlank_visible ?_ _
    exact fun blank => visible (List.mem_append_left ['[', '\x7b'] blank)
  have named : path (name.toList ++ ' ' :: '=' :: ' ' :: (written ++ '\n' :: rest)) =
      some ([name], '=' :: ' ' :: (written ++ '\n' :: rest)) :=
    path_name bare (by decide) rfl (by decide)
  rw [line, statement.eq_2, named]
  · simp only [Option.bind_eq_bind, Option.bind_some, value_front, spells.value_line, assigned,
      Option.pure_def]
  · intro _ shape
    cases isNameChar_front bare shape

theorem statement_header (bare : isBare name) (entered : draft.enter [name] = some later)
    (rest : List Char) :
    statement ('[' :: (name.toList ++ ']' :: '\n' :: rest)) draft =
      some (later, '\n' :: rest) := by
  have named : path (name.toList ++ ']' :: '\n' :: rest) = some ([name], ']' :: '\n' :: rest) :=
    path_name bare (by decide) rfl (by decide)
  rw [statement.eq_1, named]
  simp only [Option.bind_eq_bind, Option.bind_some, entered, Option.pure_def]

/-- Reading goes on from one text and draft to another, with as many steps left as the text may
need. -/
def Reaches (text : List Char) (draft : TomlDraft) (rest : List Char) (later : TomlDraft) : Prop :=
  ∀ fuel, text.length < fuel →
    ∃ less, rest.length < less ∧ statements fuel text draft = statements less rest later

theorem Reaches.refl (text : List Char) (draft : TomlDraft) : Reaches text draft text draft :=
  fun fuel enough => ⟨fuel, enough, rfl⟩

theorem Reaches.trans {text middle rest : List Char} {draft between later : TomlDraft}
    (first : Reaches text draft middle between) (second : Reaches middle between rest later) :
    Reaches text draft rest later := by
  intro fuel enough
  obtain ⟨less, enough_behind, same⟩ := first fuel enough
  obtain ⟨least, enough_rest, same_behind⟩ := second less enough_behind
  exact ⟨least, enough_rest, same.trans same_behind⟩

/-- A statement and the end of its line are one step. -/
theorem reaches_statement {c : Char} {others rest : List Char}
    (front : c ∉ [' ', '\t', '#', '\n', '\r']) (shorter : rest.length ≤ others.length)
    (read : statement (c :: others) draft = some (later, '\n' :: rest)) :
    Reaches (c :: others) draft rest later := by
  simp only [List.mem_cons, List.not_mem_nil, or_false, not_or] at front
  obtain ⟨blank, tab, comment, line, carriage⟩ := front
  have visible : skipBlank (c :: others) = c :: others :=
    skipBlank_visible (by simp [blank, tab]) others
  have goes_on : lineEnd (c :: others) = none := by
    rw [lineEnd, visible, skipComment.eq_2 _ fun _ same => comment (List.cons.inj same).1]
    refine lineBreak.eq_3 _ ?_ ?_
    · exact fun _ same => line (List.cons.inj same).1
    · exact fun _ same => carriage (List.cons.inj same).1
  have ends : lineEnd ('\n' :: rest) = some rest := rfl
  intro fuel enough
  rw [List.length_cons] at enough
  obtain ⟨less, rfl⟩ : ∃ less, fuel = less + 1 := ⟨fuel - 1, by omega⟩
  refine ⟨less, by omega, ?_⟩
  rw [statements, visible]
  simp only [goes_on, read, ends]

theorem reaches_entry (bare : isBare name) {written : List Char} {found : TomlValue}
    (spells : Spells written found) (assigned : draft.assign [name] found = some later)
    (rest : List Char) : Reaches (TomlWriter.entry name written ++ rest) draft rest later := by
  have read := statement_entry bare spells assigned rest
  obtain ⟨c, others, front, letter⟩ := front_of_isBare bare
  have line : TomlWriter.entry name written ++ rest =
      c :: (others ++ " = ".toList ++ written ++ ['\n'] ++ rest) := by
    rw [TomlWriter.entry, front]
    rfl
  rw [line] at read ⊢
  refine reaches_statement ?_ ?_ read
  · intro other
    simp only [List.mem_cons, List.not_mem_nil, or_false] at other
    rcases other with rfl | rfl | rfl | rfl | rfl <;> cases letter
  · rw [List.length_append]
    exact Nat.le_add_left _ _

/-- In front of a header there is a blank line, which is a step of its own. -/
theorem reaches_header (bare : isBare name) (entered : draft.enter [name] = some later)
    (rest : List Char) : Reaches (TomlWriter.header name ++ rest) draft rest later := by
  have line : TomlWriter.header name ++ rest =
      '\n' :: '[' :: (name.toList ++ ']' :: '\n' :: rest) := by
    rw [TomlWriter.header, List.cons_append, List.cons_append, List.append_assoc]
    rfl
  have shorter : rest.length ≤ (name.toList ++ ']' :: '\n' :: rest).length := by
    rw [List.length_append, List.length_cons, List.length_cons]
    omega
  have behind := reaches_statement (by decide) shorter (statement_header bare entered rest)
  rw [line]
  intro fuel enough
  obtain ⟨less, rfl⟩ : ∃ less, fuel = less + 1 := ⟨fuel - 1, by omega⟩
  obtain ⟨least, enough_rest, same⟩ := behind less (Nat.lt_of_succ_lt_succ enough)
  exact ⟨least, enough_rest, same⟩

/-- A text without a mark in front is read to the draft that its end reaches. -/
theorem parse_of_reaches {text : List Char} (mark : text.head? ≠ some '\ufeff')
    (reaches : Reaches text .empty [] later) : parse text = some later.finish := by
  obtain ⟨less, enough, same⟩ := reaches (text.length + 1) (Nat.lt_succ_self _)
  obtain ⟨least, rfl⟩ : ∃ least, less = least + 1 := ⟨less - 1, by omega⟩
  have ends : statements (least + 1) [] later = some later := rfl
  unfold parse
  split
  next => exact absurd rfl mark
  next =>
    dsimp only
    rw [same, ends, Option.map_some]

/-! ### Fields -/

/-- A text holds fields, of which those without a value are left out. -/
inductive Fields : List Char → List (String × Option TomlValue) → Prop where
  | absent (name : String) : Fields [] [(name, none)]
  | entry {name : String} {written : List Char} {found : TomlValue} (bare : isBare name)
      (spells : Spells written found) : Fields (TomlWriter.entry name written) [(name, some found)]
  | append {text more : List Char} {fields others : List (String × Option TomlValue)}
      (front : Fields text fields) (behind : Fields more others) :
      Fields (text ++ more) (fields ++ others)

theorem Fields.optional {α : Type} {write : α → List Char} {form : α → TomlValue}
    (bare : isBare name) {item : Option α}
    (each : ∀ value ∈ item, Spells (write value) (form value)) :
    Fields (TomlWriter.optionalEntry name write item) [(name, item.map form)] := by
  cases item with
  | none => exact .absent name
  | some value => exact .entry bare (each value rfl)

/-- The names and values of the fields that are present. -/
def present (fields : List (String × Option TomlValue)) : List (String × TomlValue) :=
  fields.filterMap fun field => field.2.map (Prod.mk field.1)

variable {fields : List (String × Option TomlValue)} {entries : List (String × TomlValue)}

theorem present_append (fields others : List (String × Option TomlValue)) :
    present (fields ++ others) = present fields ++ present others := List.filterMap_append

theorem names_present (fields : List (String × Option TomlValue)) :
    ((present fields).map Prod.fst).Sublist (fields.map Prod.fst) := by
  induction fields with
  | nil => exact .slnil
  | cons field fields induction =>
      obtain ⟨name, _ | found⟩ := field
      · exact induction.cons name
      · exact induction.cons_cons name

theorem lookup_of_not_mem {α : Type} {entries : List (String × α)} {name : String}
    (missing : name ∉ entries.map Prod.fst) :
    entries.lookup name = none := by
  rw [List.lookup_eq_none_iff]
  intro entry member
  rw [bne_iff_ne]
  rintro rfl
  exact missing (List.mem_map_of_mem member)

/-- Each name leads to what is in its field. -/
theorem lookup_present (distinct : (fields.map Prod.fst).Nodup) :
    ∀ field ∈ fields, (present fields).lookup field.1 = field.2 := by
  induction fields with
  | nil => exact fun _ member => absurd member List.not_mem_nil
  | cons first others induction =>
      rw [List.map_cons, List.nodup_cons] at distinct
      obtain ⟨new, distinct⟩ := distinct
      intro field member
      rcases List.mem_cons.1 member with rfl | behind
      · obtain ⟨name, _ | found⟩ := field
        · exact lookup_of_not_mem fun taken => new ((names_present others).subset taken)
        · exact List.lookup_cons_self
      · have other : (field.1 == first.1) = false := by
          rw [beq_eq_false_iff_ne]
          intro same
          exact new (same ▸ List.mem_map_of_mem behind)
        have found := induction distinct field behind
        obtain ⟨name, _ | value⟩ := first
        · exact found
        · change List.lookup field.1 ((name, value) :: present others) = field.2
          rw [List.lookup_cons, other]
          exact found

/-- The table that holds the fields that are present. -/
def record (fields : List (String × Option TomlValue)) : TomlValue := .table (present fields)

/-- A record gives back what is in each of its fields. -/
theorem fields?_record (distinct : (fields.map Prod.fst).Nodup) :
    (record fields).fields? (fields.map Prod.fst) = some (fields.map Prod.snd) := by
  have known : (present fields).all fun entry => (fields.map Prod.fst).contains entry.1 := by
    rw [List.all_eq_true]
    intro entry member
    rw [List.contains_iff_mem]
    exact (names_present fields).subset (List.mem_map_of_mem member)
  rw [record, TomlValue.fields?, if_pos known, List.map_map]
  exact congrArg some (List.map_congr_left (lookup_present distinct))

/-! ### Drafts -/

/-- A draft to which values are added under names that are not taken. -/
def Collects (hold : List (String × TomlValue) → TomlDraft) : Prop :=
  ∀ entries name value, entries.lookup name = none →
    (hold entries).assign [name] value = some (hold (entries ++ [(name, value)]))

theorem collects_root : Collects fun entries => ⟨entries, [], none⟩ := by
  intro entries name value new
  simp [TomlDraft.assign, TomlDraft.hasName, new]

/-- The table whose header was read last collects values. -/
theorem collects_section {values : List (String × TomlValue)}
    {sections : List (String × List (String × TomlValue))} {table : String}
    (free : values.lookup table = none) (new : table ∉ sections.map Prod.fst) :
    Collects fun entries => ⟨values, sections ++ [(table, entries)], some table⟩ := by
  intro entries name value absent
  have other : sections.map (fun each => if each.1 = table then
      (table, entries ++ [(name, value)]) else each) = sections := by
    have same : ∀ each ∈ sections, (if each.1 = table then
        (table, entries ++ [(name, value)]) else each) = each := by
      intro each member
      rw [if_neg]
      rintro rfl
      exact new (List.mem_map_of_mem member)
    rw [List.map_congr_left same, List.map_id']
  simp only [TomlDraft.assign, TomlDraft.defineIn, free, List.lookup_append,
    lookup_of_not_mem new, List.lookup_cons_self, TomlDraft.define, absent, Option.isSome_none,
    Bool.false_eq_true, if_false, Option.none_or, Option.map_some, List.map_append, other,
    List.map_cons, List.map_nil, if_true]

/-- Fields are collected one after another. -/
theorem Fields.reaches {hold : List (String × TomlValue) → TomlDraft} (collects : Collects hold)
    {text : List Char} (held : Fields text fields)
    (distinct : (entries.map Prod.fst ++ fields.map Prod.fst).Nodup) (rest : List Char) :
    Reaches (text ++ rest) (hold entries) rest (hold (entries ++ present fields)) := by
  induction held generalizing entries rest with
  | absent name =>
      have none : present [(name, none)] = [] := rfl
      rw [none, List.append_nil]
      exact .refl rest (hold entries)
  | @entry name written found bare spells =>
      have new : name ∉ entries.map Prod.fst := fun taken =>
        (List.nodup_append.1 distinct).2.2 name taken name List.mem_cons_self rfl
      exact reaches_entry bare spells (collects entries name found (lookup_of_not_mem new)) rest
  | @append text more fields others front behind reaches_front reaches_behind =>
      rw [List.map_append, ← List.append_assoc] at distinct
      rw [List.append_assoc, present_append, ← List.append_assoc entries]
      have front_distinct := (List.nodup_append.1 distinct).1
      refine (reaches_front front_distinct (more ++ rest)).trans (reaches_behind ?_ rest)
      rw [List.map_append]
      refine distinct.sublist ?_
      exact ((List.Sublist.refl _).append (names_present fields)).append (.refl _)

/-! ### Documents -/

/-- A text holds the fields of the root, and then sections with fields of their own. -/
inductive Document : List Char → List (String × Option TomlValue) →
    List (String × List (String × Option TomlValue)) → Prop where
  | root {text : List Char} {fields : List (String × Option TomlValue)} (held : Fields text fields) :
      Document text fields []
  | withSection {text more : List Char} {fields others : List (String × Option TomlValue)}
      {sections : List (String × List (String × Option TomlValue))} {name : String}
      (document : Document text fields sections) (bare : isBare name) (held : Fields more others) :
      Document (text ++ TomlWriter.header name ++ more) fields (sections ++ [(name, others)])

variable {sections : List (String × List (String × Option TomlValue))}

/-- The tables of sections. -/
def tables (sections : List (String × List (String × Option TomlValue))) :
    List (String × List (String × TomlValue)) := sections.map fun each => (each.1, present each.2)

theorem names_tables (sections : List (String × List (String × Option TomlValue))) :
    (tables sections).map Prod.fst = sections.map Prod.fst := List.map_map

/-- The draft of a document: the last section collects values. -/
def draftOf (fields : List (String × Option TomlValue))
    (sections : List (String × List (String × Option TomlValue))) : TomlDraft where
  values := present fields
  sections := tables sections
  current := sections.getLast?.map Prod.fst

/-- A document is read section by section: its names are not taken by what stands in front. -/
theorem Document.reaches {text : List Char} (document : Document text fields sections)
    (distinct : (fields.map Prod.fst ++ sections.map Prod.fst).Nodup)
    (each_distinct : ∀ each ∈ sections, (each.2.map Prod.fst).Nodup) (rest : List Char) :
    Reaches (text ++ rest) .empty rest (draftOf fields sections) := by
  induction document generalizing rest with
  | root held =>
      rw [List.map_nil, List.append_nil] at distinct
      exact @Fields.reaches _ [] _ collects_root _ held distinct rest
  | @withSection text more fields others sections name document bare held induction =>
      rw [List.map_append, ← List.append_assoc, List.nodup_append] at distinct
      obtain ⟨front_distinct, -, apart⟩ := distinct
      have new : name ∉ fields.map Prod.fst ++ sections.map Prod.fst := fun taken =>
        apart name taken name List.mem_cons_self rfl
      rw [List.mem_append, not_or, ← names_tables] at new
      have free : (present fields).lookup name = none :=
        lookup_of_not_mem fun taken => new.1 ((names_present fields).subset taken)
      have entered : (draftOf fields sections).enter [name] =
          some ⟨present fields, tables sections ++ [(name, [])], some name⟩ := by
        simp [TomlDraft.enter, TomlDraft.hasName, draftOf, free, lookup_of_not_mem new.2]
      have reaches_front := induction front_distinct
        (fun each member => each_distinct each (List.mem_append_left _ member))
        (TomlWriter.header name ++ (more ++ rest))
      have reaches_inside := @Fields.reaches _ [] _ (collects_section free new.2) _ held
        (each_distinct (name, others) (List.mem_append_right _ List.mem_cons_self)) rest
      have final : draftOf fields (sections ++ [(name, others)]) =
          ⟨present fields, tables sections ++ [(name, present others)], some name⟩ := by
        simp [draftOf, tables]
      -- the document in front, the header, and the fields behind it
      rw [List.append_assoc, List.append_assoc, final]
      exact (reaches_front.trans (reaches_header bare entered (more ++ rest))).trans reaches_inside

/-- The fields of a document, among which the sections are records of their own. -/
def withSections (fields : List (String × Option TomlValue))
    (sections : List (String × List (String × Option TomlValue))) :
    List (String × Option TomlValue) :=
  fields ++ sections.map fun each => (each.1, some (record each.2))

theorem names_withSections (fields : List (String × Option TomlValue))
    (sections : List (String × List (String × Option TomlValue))) :
    (withSections fields sections).map Prod.fst = fields.map Prod.fst ++ sections.map Prod.fst := by
  rw [withSections, List.map_append, List.map_map]
  rfl

theorem present_withSections (fields : List (String × Option TomlValue))
    (sections : List (String × List (String × Option TomlValue))) :
    present (withSections fields sections) =
      present fields ++ (tables sections).map fun each => (each.1, .table each.2) := by
  have inside : present (sections.map fun each => (each.1, some (record each.2))) =
      sections.map fun each => (each.1, record each.2) := by
    rw [present, List.filterMap_map, ← List.filterMap_eq_map]
    rfl
  rw [withSections, present_append, inside, tables, List.map_map]
  rfl

/-- A document is read as the record of its fields and sections. -/
theorem Document.parse {text : List Char} (document : Document text fields sections)
    (mark : text.head? ≠ some '\ufeff')
    (distinct : ((withSections fields sections).map Prod.fst).Nodup)
    (each_distinct : ∀ each ∈ sections, (each.2.map Prod.fst).Nodup) :
    parse text = some (record (withSections fields sections)) := by
  rw [names_withSections] at distinct
  have reaches := document.reaches distinct each_distinct []
  rw [List.append_nil] at reaches
  rw [parse_of_reaches mark reaches, record, present_withSections]
  rfl

end TomlReader
end TileBindery
