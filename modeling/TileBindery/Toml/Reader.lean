import TileBindery.Toml.Number
import TileBindery.Toml.Value

/-!
# Reading TOML

A text is a sequence of statements, each on a line of its own: headers and named values, between
blank lines and comments.  Every part takes the characters in front of it and leaves the rest.
-/

namespace TileBindery
namespace TomlReader

def boundedInteger (text : List Char) : Option (TomlValue × List Char) := do
  let (found, rest) ← integer text
  if found < -(2 ^ 63) ∨ (TomlValue.maxInteger : Int) < found then none
  else return (.integer found, rest)

/-- Take a value that starts like a number: a date-time, a float or an integer, whichever is found
first. -/
def numeric (text : List Char) : Option (TomlValue × List Char) :=
  match TomlDateTime.take text with
  | some (found, rest) => some (.dateTime found, rest)
  | none =>
      match float text with
      | some (found, rest) => some (.float found, rest)
      | none => boundedInteger text

/-- Take a value that holds no others. -/
def scalar (text : List Char) : Option (TomlValue × List Char) :=
  match text with
  | 't' :: 'r' :: 'u' :: 'e' :: rest => some (.bool true, rest)
  | 'f' :: 'a' :: 'l' :: 's' :: 'e' :: rest => some (.bool false, rest)
  | '"' :: _ | '\'' :: _ =>
      (string text).map fun (found, rest) => (.text (String.ofList found), rest)
  | text => numeric text

/-- Take the items of a list behind those that are `found`, last first, and the bracket that ends
it. -/
def items (value : List Char → Option (TomlValue × List Char)) :
    (fuel : Nat) → (found : List TomlValue) → List Char → Option (List TomlValue × List Char)
  | 0, _, _ => none
  | fuel + 1, found, text =>
      match skipFiller false text with
      | ']' :: rest => some (found.reverse, rest)
      | text => do
          let (item, rest) ← value text
          match skipFiller false rest with
          | ',' :: rest => items value fuel (item :: found) rest
          | ']' :: rest => return ((item :: found).reverse, rest)
          | _ => none

/-- Take the entries of a table in braces and the brace that ends it. -/
def entries (value : List Char → Option (TomlValue × List Char)) :
    (fuel : Nat) → List (String × TomlBranch) → List Char →
      Option (List (String × TomlValue) × List Char)
  | 0, _, _ => none
  | fuel + 1, found, text => do
      let (names, rest) ← path text
      match rest with
      | '=' :: rest => do
          let (item, rest) ← value (skipBlank rest)
          let found ← TomlBranch.insert item names found
          match skipBlank rest with
          | ',' :: rest => entries value fuel found rest
          | '\x7d' :: rest => return (TomlBranch.closeAll found, rest)
          | _ => none
      | _ => none

/-- Take a value, in which lists and tables lie at most `depth` levels deep.  No list or table has
more than `most` parts. -/
def value (most : Nat) : (depth : Nat) → List Char → Option (TomlValue × List Char)
  | 0, text => scalar text
  | depth + 1, text =>
      match text with
      | '[' :: rest =>
          (items (value most depth) most [] rest).map fun (items, rest) => (.array items, rest)
      | '\x7b' :: rest =>
          match skipBlank rest with
          | '\x7d' :: rest => some (.table [], rest)
          | rest =>
              (entries (value most depth) most [] rest).map fun (entries, rest) =>
                (.table entries, rest)
      | text => scalar text

/-- Take a statement without the end of its line. -/
def statement (text : List Char) (draft : TomlDraft) : Option (TomlDraft × List Char) :=
  match text with
  | '[' :: rest => do
      let (names, rest) ← path rest
      match rest with
      | ']' :: rest => do
          let draft ← draft.enter names
          return (draft, rest)
      | _ => none
  | text => do
      let (names, rest) ← path text
      match rest with
      | '=' :: rest => do
          let (found, rest) ← value (rest.length + 1) maxDepth (skipBlank rest)
          let draft ← draft.assign names found
          return (draft, rest)
      | _ => none

def statements : (fuel : Nat) → List Char → TomlDraft → Option TomlDraft
  | 0, _, _ => none
  | fuel + 1, text, draft =>
      match skipBlank text with
      | [] => some draft
      | text =>
          match lineEnd text with
          | some rest => statements fuel rest draft
          | none =>
              match statement text draft with
              | none => none
              | some (draft, rest) =>
                  match lineEnd rest with
                  | none => none
                  | some rest => statements fuel rest draft

/-- Read a whole text, in front of which there may be a byte order mark. -/
def parse (text : List Char) : Option TomlValue :=
  let text := match text with
    | '\ufeff' :: rest => rest
    | text => text
  (statements (text.length + 1) text .empty).map TomlDraft.finish

end TomlReader
end TileBindery
