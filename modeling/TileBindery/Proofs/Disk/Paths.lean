import TileBindery.Disk.Path
import TileBindery.Proofs.Text.Numerals

/-!
# Where paths lead

On a disk without links a path leads to one place, if it leads anywhere: the names in it tell which.
The main statements give the place of a name in a directory, and say that numbered names differ.
-/

namespace TileBindery
namespace Path

/-- The place that one part of a path leads to. -/
def goOn (location : Location) (part : String) : Location :=
  if part = "." then location else if part = ".." then location.dropLast else location ++ [part]

/-- The place that a path leads to if it leads anywhere. -/
def location (path : Path) : Location := path.parts.foldl goOn []

theorem mem_of_mem_goOn {location : Location} {part name : String}
    (member : name ∈ goOn location part) : name ∈ location ∨ name = part := by
  rw [goOn] at member
  split at member
  · exact .inl member
  · split at member
    · exact .inl (List.dropLast_subset _ member)
    · simpa using member

/-- A place has names of the path that leads there only. -/
theorem mem_of_mem_foldl {parts : List String} {start : Location} {name : String}
    (member : name ∈ parts.foldl goOn start) : name ∈ start ∨ name ∈ parts := by
  induction parts generalizing start with
  | nil => exact .inl member
  | cons part rest ih =>
      rcases ih member with front | behind
      · rcases mem_of_mem_goOn front with old | rfl
        · exact .inl old
        · exact .inr List.mem_cons_self
      · exact .inr (List.mem_cons_of_mem _ behind)

theorem mem_parts_of_mem_location {path : Path} {name : String}
    (member : name ∈ path.location) : name ∈ path.parts := by
  rcases mem_of_mem_foldl member with start | found
  · exact absurd start List.not_mem_nil
  · exact found

/-! ### Texts of paths -/

/-- A text that can stand for something in a directory. -/
structure IsName (name : String) : Prop where
  /-- It has no slash. -/
  noSlash : '/' ∉ name.toList
  /-- It has a character. -/
  nonempty : name ≠ ""
  /-- It is no dot. -/
  noDot : name ≠ "."
  /-- It is no double dot. -/
  noDots : name ≠ ".."

theorem goOn_of_isName {name : String} (isName : IsName name) (location : Location) :
    goOn location name = location ++ [name] := by
  rw [goOn, if_neg isName.noDot, if_neg isName.noDots]

/-- The parts that characters make up. -/
def partsOf (text : List Char) : List String :=
  ((pieces text).filter fun piece => !piece.isEmpty).map String.ofList

theorem pieces_ne_nil (text : List Char) : pieces text ≠ [] := by
  cases text with
  | nil => simp [pieces]
  | cons c rest =>
      simp only [pieces]
      split
      · simp
      · split <;> simp

theorem pieces_append_slash (front rest : List Char) :
    pieces (front ++ '/' :: rest) = pieces front ++ pieces rest := by
  induction front with
  | nil => simp [pieces]
  | cons c front ih =>
      simp only [List.cons_append, pieces, ih]
      split
      · rfl
      · cases found : pieces front with
        | nil => exact absurd found (pieces_ne_nil front)
        | cons piece more => rfl

theorem partsOf_append_slash (front rest : List Char) :
    partsOf (front ++ '/' :: rest) = partsOf front ++ partsOf rest := by
  rw [partsOf, pieces_append_slash, List.filter_append, List.map_append]
  rfl

theorem pieces_of_noSlash {text : List Char} (noSlash : '/' ∉ text) : pieces text = [text] := by
  induction text with
  | nil => rfl
  | cons c rest ih =>
      have other : c ≠ '/' := fun equal => noSlash (equal ▸ List.mem_cons_self)
      have behind := ih fun member => noSlash (List.mem_cons_of_mem _ member)
      simp only [pieces, if_neg other, behind]

theorem parts_of_isName {name : String} (isName : IsName name) : (ofText name).parts = [name] := by
  have filled : name.toList ≠ [] := fun empty => isName.nonempty (String.toList_eq_nil_iff.1 empty)
  simp only [ofText, pieces_of_noSlash isName.noSlash]
  simp [filled]

/-- A name in a directory stands behind the parts of the directory. -/
theorem parts_join {name : String} (isName : IsName name) (directory : String) :
    (ofText (join directory name)).parts = (ofText directory).parts ++ [name] := by
  have relative : ¬name.startsWith "/" := by
    rw [String.startsWith_string_iff]
    intro slash
    exact isName.noSlash (slash.subset (by decide))
  have single : partsOf name.toList = [name] := parts_of_isName isName
  rw [join]
  split
  next alone =>
    have empty : directory = "" := String.isEmpty_iff.1 (alone.resolve_left relative)
    rw [empty]
    exact parts_of_isName isName
  · split
    next closed =>
      have ends : ['/'] <:+ directory.toList := by
        simpa [String.endsWith] using String.Slice.endsWith_string_iff.1 closed
      obtain ⟨front, shape⟩ := ends
      have whole : (directory ++ name).toList = front ++ '/' :: name.toList := by
        rw [String.toList_append, ← shape, List.append_assoc, List.singleton_append]
      have closing := partsOf_append_slash front []
      rw [shape, show partsOf [] = [] from rfl, List.append_nil] at closing
      change partsOf (directory ++ name).toList = partsOf directory.toList ++ [name]
      rw [whole, partsOf_append_slash, single, closing]
    next =>
      change partsOf (directory ++ "/" ++ name).toList = partsOf directory.toList ++ [name]
      have whole : (directory ++ "/" ++ name).toList =
          directory.toList ++ '/' :: name.toList := by
        rw [String.toList_append, String.toList_append, List.append_assoc]
        rfl
      rw [whole, partsOf_append_slash, single]

theorem location_join {name : String} (isName : IsName name) (directory : String) :
    (ofText (join directory name)).location = (ofText directory).location ++ [name] := by
  rw [location, parts_join isName, List.foldl_append, List.foldl_cons, List.foldl_nil,
    goOn_of_isName isName, location]

/-! ### Numbered names -/

theorem toList_toString (number : Nat) : (toString number).toList = Nat.toDigits 10 number :=
  Nat.toList_repr

theorem toString_ne_nil (number : Nat) : (toString number).toList ≠ [] := by
  rw [toList_toString]
  exact Nat.toDigits_ne_nil

theorem isDigit_of_mem_toString {number : Nat} {c : Char}
    (member : c ∈ (toString number).toList) : c.isDigit := by
  rw [toList_toString] at member
  exact Digits.isDigit_of_mem_toDigits member

theorem isDigit_of_mem_numberText {number : Nat} {c : Char}
    (member : c ∈ (numberText number).toList) : c.isDigit := by
  simp only [numberText, String.toList_append, String.toList_ofList, List.mem_append] at member
  rcases member with zero | digit
  · rw [List.eq_of_mem_replicate zero]
    decide
  · exact isDigit_of_mem_toString digit

/-- Different numbers have different texts. -/
theorem numberText_injective {a b : Nat} (equal : numberText a = numberText b) : a = b := by
  have value (number : Nat) : Nat.ofDigitChars 10 (numberText number).toList 0 = number := by
    simp only [numberText, String.toList_append, String.toList_ofList]
    rw [show (toString number).toList = Nat.toDigits 10 number from Nat.toList_repr,
      Nat.ofDigitChars_append, Nat.ofDigitChars_replicate_zero, Nat.mul_zero,
      Nat.ofDigitChars_ten_toDigits]
  rw [← value a, equal, value b]

/-- A number between two texts without slashes makes a name, unless these are as short as dots. -/
theorem isName_number {front back : String} (frontSlash : '/' ∉ front.toList)
    (backSlash : '/' ∉ back.toList) (long : 2 < front.toList.length) (number : Nat) :
    IsName (front ++ numberText number ++ back) := by
  have longer : 2 < (front ++ numberText number ++ back).toList.length := by
    simp only [String.toList_append, List.length_append]
    omega
  constructor
  · simp only [String.toList_append, List.mem_append, not_or]
    refine ⟨⟨frontSlash, fun member => ?_⟩, backSlash⟩
    exact absurd (isDigit_of_mem_numberText member) (by decide)
  all_goals
    intro equal
    rw [equal] at longer
    exact absurd longer (by decide)

end Path
end TileBindery
