import TileBindery.Binary64.Basic
import TileBindery.Toml.DateTime

/-!
# TOML values

The values that a TOML text names, and the tables they are collected in while the text is read.
-/

namespace TileBindery

inductive TomlValue where
  | text (value : String)
  /-- A signed integer of 64 bits. -/
  | integer (value : Int)
  | float (value : Binary64)
  | bool (value : Bool)
  /-- A date, a time of day, or both. -/
  | dateTime (value : TomlDateTime)
  | array (items : List TomlValue)
  | table (entries : List (String × TomlValue))
  deriving Repr

namespace TomlValue

def maxInteger : Nat := 2 ^ 63 - 1

def text? : TomlValue → Option String
  | .text value => some value
  | _ => none

def bool? : TomlValue → Option Bool
  | .bool value => some value
  | _ => none

def natural? : TomlValue → Option Nat
  | .integer value => if value < 0 then none else some value.toNat
  | _ => none

/-- The fields of a record, in the order of `names`.  A record is a table with no other names in it,
or a list of its first fields, of which further items are left unread. -/
def fields? (names : List String) : TomlValue → Option (List (Option TomlValue))
  | .table entries =>
      if entries.all fun entry => names.contains entry.1 then
        some (names.map fun name => entries.lookup name)
      else none
  | .array items =>
      some ((items.take names.length).map some ++
        List.replicate (names.length - items.length) none)
  | _ => none

def optional {α : Type} (read : TomlValue → Option α) : Option TomlValue → Option (Option α)
  | none => some none
  | some value => (read value).map some

/-- A field with a value for when it is missing. -/
def orElse {α : Type} (read : TomlValue → Option α) (missing : α) : Option TomlValue → Option α
  | none => some missing
  | some value => read value

end TomlValue

/-- What a name in braces stands for while they are read: a value, or a table that is open for
further values because only names with points have led to it. -/
inductive TomlBranch where
  | leaf (value : TomlValue)
  | node (entries : List (String × TomlBranch))
  deriving Repr

namespace TomlBranch

/-- Name a value by the parts of a path, unless the name is taken or leads through a value. -/
def insert (value : TomlValue) :
    List String → List (String × TomlBranch) → Option (List (String × TomlBranch))
  | [], _ => none
  | [name], entries =>
      if (entries.lookup name).isSome then none else some (entries ++ [(name, .leaf value)])
  | name :: path, entries =>
      match entries.lookup name with
      | some (.leaf _) => none
      | none => (insert value path []).map fun inner => entries ++ [(name, .node inner)]
      | some (.node inner) =>
          (insert value path inner).map fun inner =>
            entries.map fun entry => if entry.1 = name then (name, .node inner) else entry

mutual

/-- The value of a branch that nothing more is added to. -/
def close : TomlBranch → TomlValue
  | .leaf value => value
  | .node entries => .table (closeAll entries)

/-- The values of branches that nothing more is added to. -/
def closeAll : List (String × TomlBranch) → List (String × TomlValue)
  | [] => []
  | (name, branch) :: rest => (name, branch.close) :: closeAll rest

end

end TomlBranch

/-- A table while its text is read: values and tables of the root, and the table whose header was
read last. -/
structure TomlDraft where
  values : List (String × TomlValue)
  sections : List (String × List (String × TomlValue))
  /-- The table that the next values go to, unless it is the root. -/
  current : Option String
  deriving Repr

namespace TomlDraft

def empty : TomlDraft := ⟨[], [], none⟩

def hasName (draft : TomlDraft) (name : String) : Bool :=
  (draft.values.lookup name).isSome || (draft.sections.lookup name).isSome

/-- Name a value, unless the name is taken. -/
def define (name : String) (value : TomlValue) (entries : List (String × TomlValue)) :
    Option (List (String × TomlValue)) :=
  if (entries.lookup name).isSome then none else some (entries ++ [(name, value)])

/-- Name a value of a table, which begins with its first value unless it has a header. -/
def defineIn (draft : TomlDraft) (table name : String) (value : TomlValue) : Option TomlDraft :=
  if (draft.values.lookup table).isSome then none
  else
    match draft.sections.lookup table with
    | none => some { draft with sections := draft.sections ++ [(table, [(name, value)])] }
    | some entries =>
        (define name value entries).map fun entries =>
          { draft with
            sections := draft.sections.map fun section_ =>
              if section_.1 = table then (table, entries) else section_ }

/-- Read a header.  A table has one header, and none if values were named in it by the root.  Tables
inside tables are refused, as no setting lies that deep. -/
def enter (draft : TomlDraft) : List String → Option TomlDraft
  | [name] =>
      if draft.hasName name then none
      else some { draft with sections := draft.sections ++ [(name, [])], current := some name }
  | _ => none

def assign (draft : TomlDraft) (path : List String) (value : TomlValue) : Option TomlDraft :=
  match draft.current, path with
  | none, [name] =>
      if draft.hasName name then none
      else some { draft with values := draft.values ++ [(name, value)] }
  | none, [table, name] => draft.defineIn table name value
  | some table, [name] => draft.defineIn table name value
  | _, _ => none

def finish (draft : TomlDraft) : TomlValue :=
  .table (draft.values ++ draft.sections.map fun section_ => (section_.1, .table section_.2))

end TomlDraft
end TileBindery
