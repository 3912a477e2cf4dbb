import TileBindery.Text.Hex

/-!
# Texts and names in TOML

Blanks, line breaks, comments, the four kinds of strings, and names.  Every part takes the
characters in front of it and leaves the rest.
-/

namespace TileBindery
namespace TomlReader

/-- A character that is read as itself: no control character but the tab. -/
def isPlain (c : Char) : Bool := c = '\t' || (32 ≤ c.toNat && c.toNat ≠ 127)

def isBlank (c : Char) : Bool := c = ' ' || c = '\t'

def skipBlank (text : List Char) : List Char := text.dropWhile isBlank

def lineBreak : List Char → Option (List Char)
  | '\n' :: rest => some rest
  | '\r' :: '\n' :: rest => some rest
  | _ => none

def skipComment : List Char → List Char
  | '#' :: rest => rest.dropWhile isPlain
  | text => text

/-- Take blanks, a comment and a line break, or the end of the text. -/
def lineEnd (text : List Char) : Option (List Char) :=
  match skipComment (skipBlank text) with
  | [] => some []
  | rest => lineBreak rest

/-- Drop blanks, line breaks and comments in front. -/
def skipFiller (inComment : Bool) : List Char → List Char
  | [] => []
  | '\n' :: rest => skipFiller false rest
  | '\r' :: '\n' :: rest => skipFiller false rest
  | c :: rest =>
      if inComment then if isPlain c then skipFiller true rest else c :: rest
      else if c = '#' then skipFiller true rest
      else if isBlank c then skipFiller false rest
      else c :: rest

/-- The value of a hexadecimal digit of either case. -/
def hexValue? (c : Char) : Option Nat :=
  if c.toNat < 128 then Hex.digitValue? (UInt8.ofNat c.toNat) else none

/-- Take the character that hexadecimal digits number. -/
def numbered (digits : Nat) (text : List Char) : Option (Char × List Char) :=
  let found := text.take digits
  if found.length < digits then none
  else do
    let values ← found.mapM hexValue?
    let number := values.foldl (fun value digit => value * 16 + digit) 0
    if number.isValidChar then some (Char.ofNat number, text.drop digits) else none

/-- Take what follows the backslash of an escape. -/
def escape : List Char → Option (Char × List Char)
  | [] => none
  | letter :: rest =>
      match letter with
      | 'b' => some ('\x08', rest)
      | 't' => some ('\t', rest)
      | 'n' => some ('\n', rest)
      | 'f' => some ('\x0c', rest)
      | 'r' => some ('\r', rest)
      | '"' => some ('"', rest)
      | '\\' => some ('\\', rest)
      | 'u' => numbered 4 rest
      | 'U' => numbered 8 rest
      | _ => none

theorem length_of_numbered {digits : Nat} {text rest : List Char} {c : Char}
    (h : numbered digits text = some (c, rest)) : rest.length ≤ text.length := by
  unfold numbered at h
  simp only at h
  split at h
  next => cases h
  next =>
    simp only [Option.bind_eq_bind, Option.bind_eq_some_iff] at h
    obtain ⟨_, _, h⟩ := h
    split at h
    next =>
      cases h
      simp
    next => cases h

/-- An escape takes at least its letter. -/
theorem length_of_escape {text rest : List Char} {c : Char} (h : escape text = some (c, rest)) :
    rest.length < text.length := by
  unfold escape at h
  split at h
  next => cases h
  next =>
    split at h
    all_goals
      first
      | cases h; done
      | cases h; exact Nat.lt_succ_self _
      | exact Nat.lt_succ_of_le (length_of_numbered h)

/-- A string behind the characters `found`, which are given last first, and what follows it. -/
abbrev Taken := Option (List Char × List Char)

/-- Take a string up to the quote that ends it, behind the characters `found`, last first. -/
def quotedFrom (found : List Char) : List Char → Taken
  | [] => none
  | c :: rest =>
      if c = '"' then some (found.reverse, rest)
      else if c = '\\' then
        match taken : escape rest with
        | none => none
        | some (c, behind) =>
            have := length_of_escape taken
            quotedFrom (c :: found) behind
      else if isPlain c then quotedFrom (c :: found) rest
      else none
  termination_by text => text.length
  decreasing_by all_goals simp; try omega

/-- Take a string behind its opening quote. -/
def quoted (text : List Char) : Taken := quotedFrom [] text

/-- Take a literal string up to the quote that ends it, behind the characters `found`, last
first. -/
def literalFrom (found : List Char) : List Char → Taken
  | [] => none
  | c :: rest =>
      if c = '\'' then some (found.reverse, rest)
      else if isPlain c then literalFrom (c :: found) rest
      else none

/-- Take a literal string behind its opening quote. -/
def literal (text : List Char) : Taken := literalFrom [] text

/-- The quotes that belong to a string although three more of them end it. -/
def closing (quote : Char) : List Char → List Char × List Char
  | a :: b :: rest =>
      if a = quote then if b = quote then ([a, b], rest) else ([a], b :: rest)
      else ([], a :: b :: rest)
  | [a] => if a = quote then ([a], []) else ([], [a])
  | [] => ([], [])

/-- The end of a string of several lines. -/
def closed (quote : Char) (found text : List Char) : List Char × List Char :=
  let (more, rest) := closing quote text
  (found.reverse ++ more, rest)

/-- Drop blanks and line breaks in front. -/
def skipSpace : List Char → List Char
  | [] => []
  | '\r' :: '\n' :: rest => skipSpace rest
  | c :: rest => if c = '\n' ∨ isBlank c then skipSpace rest else c :: rest

theorem length_skipSpace_le (text : List Char) : (skipSpace text).length ≤ text.length := by
  fun_induction skipSpace text with
  | case1 => exact Nat.le_refl _
  | case2 rest ih => simp only [List.length_cons]; omega
  | case3 _ rest _ _ ih => simp only [List.length_cons]; omega
  | case4 => exact Nat.le_refl _

/-- Take the blanks and line breaks behind a backslash that ends a line. -/
def continuation (text : List Char) : Option (List Char) :=
  (lineBreak (skipBlank text)).map skipSpace

theorem length_of_lineBreak {text rest : List Char} (h : lineBreak text = some rest) :
    rest.length < text.length := by
  unfold lineBreak at h
  split at h
  · cases h; exact Nat.lt_succ_self _
  · cases h; simp only [List.length_cons]; omega
  · cases h

theorem length_of_continuation {text rest : List Char} (h : continuation text = some rest) :
    rest.length < text.length := by
  simp only [continuation, Option.map_eq_some_iff] at h
  obtain ⟨behind, taken, rfl⟩ := h
  have space := length_skipSpace_le behind
  have line := length_of_lineBreak taken
  have blank : (skipBlank text).length ≤ text.length :=
    (List.dropWhile_suffix isBlank).length_le
  omega

/-- Take a string of several lines up to the quotes that end it, behind the characters `found`,
last first. -/
def quotedLinesFrom (found : List Char) : List Char → Taken
  | [] => none
  | '"' :: '"' :: '"' :: rest => some (closed '"' found rest)
  | '\n' :: rest => quotedLinesFrom ('\n' :: found) rest
  | '\r' :: '\n' :: rest => quotedLinesFrom ('\n' :: found) rest
  | '\\' :: rest =>
      match taken : escape rest with
      | some (c, behind) =>
          have := length_of_escape taken
          quotedLinesFrom (c :: found) behind
      | none =>
          match taken : continuation rest with
          | some behind =>
              have := length_of_continuation taken
              quotedLinesFrom found behind
          | none => none
  | c :: rest => if isPlain c then quotedLinesFrom (c :: found) rest else none
  termination_by text => text.length
  decreasing_by all_goals simp; try omega

/-- Take a literal string of several lines up to the quotes that end it, behind the characters
`found`, last first. -/
def literalLinesFrom (found : List Char) : List Char → Taken
  | [] => none
  | '\'' :: '\'' :: '\'' :: rest => some (closed '\'' found rest)
  | '\n' :: rest => literalLinesFrom ('\n' :: found) rest
  | '\r' :: '\n' :: rest => literalLinesFrom ('\n' :: found) rest
  | c :: rest => if isPlain c then literalLinesFrom (c :: found) rest else none

def skipBreak (text : List Char) : List Char := (lineBreak text).getD text

def string : List Char → Taken
  | '"' :: '"' :: '"' :: rest => quotedLinesFrom [] (skipBreak rest)
  | '\'' :: '\'' :: '\'' :: rest => literalLinesFrom [] (skipBreak rest)
  | '"' :: rest => quoted rest
  | '\'' :: rest => literal rest
  | _ => none

/-- A character of a name without quotes. -/
def isNameChar (c : Char) : Bool := c.isAlphanum || c = '_' || c = '-'

def namePart : List Char → Taken
  | '"' :: rest => quoted rest
  | '\'' :: rest => literal rest
  | text =>
      match text.span isNameChar with
      | ([], _) => none
      | found => some found

/-- The most levels that a name leads through, and lists and tables lie in each other. -/
def maxDepth : Nat := 79

/-- Take at most `depth` parts of a name, between which there are points. -/
def pathFrom : (depth : Nat) → List Char → Option (List String × List Char)
  | 0, _ => none
  | depth + 1, text => do
      let (part, rest) ← namePart (skipBlank text)
      match skipBlank rest with
      | '.' :: rest => do
          let (more, rest) ← pathFrom depth rest
          return (String.ofList part :: more, rest)
      | rest => return ([String.ofList part], rest)

def path (text : List Char) : Option (List String × List Char) := pathFrom maxDepth text

end TomlReader
end TileBindery
