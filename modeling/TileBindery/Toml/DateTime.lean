/-!
# Dates and times in TOML

A date-time is a date, a time of day, or both, then perhaps with an offset from universal time.  The
readers take the characters in front of them and leave the rest.  Days exist in their month, and a
minute may have a leap second.
-/

namespace TileBindery

structure TomlDate where
  year : Nat
  month : Nat
  /-- The day of the month, from one. -/
  day : Nat
  deriving DecidableEq, Repr

structure TomlTime where
  hour : Nat
  minute : Nat
  second : Nat
  /-- Digits of the fraction of a second. -/
  fraction : List Nat
  deriving DecidableEq, Repr

/-- A distance from universal time. -/
inductive TomlOffset where
  | universal
  /-- Minutes ahead of universal time. -/
  | minutes (value : Int)
  deriving DecidableEq, Repr

/-- A date, a time of day, or both. -/
inductive TomlDateTime where
  | dateOnly (date : TomlDate)
  | timeOnly (time : TomlTime)
  /-- A time on a day, there or anywhere. -/
  | moment (date : TomlDate) (time : TomlTime) (offset : Option TomlOffset)
  deriving DecidableEq, Repr

namespace TomlDateTime

/-- Take a number of a fixed count of digits. -/
def digits (count : Nat) (text : List Char) : Option (Nat × List Char) :=
  let found := text.take count
  if found.length = count ∧ found.all Char.isDigit then
    some (found.foldl (fun value c => value * 10 + (c.toNat - 48)) 0, text.drop count)
  else none

/-- Take a number of two digits between two bounds. -/
def twoDigits (least greatest : Nat) (text : List Char) : Option (Nat × List Char) :=
  (digits 2 text).filter fun found => least ≤ found.1 ∧ found.1 ≤ greatest

def mark (expected : Char) : List Char → Option (List Char)
  | [] => none
  | c :: rest => if c = expected then some rest else none

def daysIn (year month : Nat) : Nat :=
  if month = 2 then
    if year % 4 = 0 ∧ (year % 100 ≠ 0 ∨ year % 400 = 0) then 29 else 28
  else if month = 4 ∨ month = 6 ∨ month = 9 ∨ month = 11 then 30
  else 31

/-- Take a date: year, month and day with dashes between them. -/
def takeDate (text : List Char) : Option (TomlDate × List Char) := do
  let (year, text) ← digits 4 text
  let text ← mark '-' text
  let (month, text) ← twoDigits 1 12 text
  let text ← mark '-' text
  let (day, text) ← twoDigits 1 (daysIn year month) text
  return (⟨year, month, day⟩, text)

/-- Take the fraction of a second, if there is one. -/
def takeFraction : List Char → List Nat × List Char
  | '.' :: rest =>
      match rest.span Char.isDigit with
      | ([], _) => ([], '.' :: rest)
      | (found, rest) => (found.map fun c => c.toNat - 48, rest)
  | text => ([], text)

/-- Take a time of day: hour, minute and second with colons between them. -/
def takeTime (text : List Char) : Option (TomlTime × List Char) := do
  let (hour, text) ← twoDigits 0 23 text
  let text ← mark ':' text
  let (minute, text) ← twoDigits 0 59 text
  let text ← mark ':' text
  let (second, text) ← twoDigits 0 60 text
  let (fraction, text) := takeFraction text
  return (⟨hour, minute, second, fraction⟩, text)

/-- Take hours and minutes of an offset. -/
def takeMinutes (text : List Char) : Option (Nat × List Char) := do
  let (hours, text) ← twoDigits 0 23 text
  let text ← mark ':' text
  let (minutes, text) ← twoDigits 0 59 text
  return (hours * 60 + minutes, text)

def takeOffset : List Char → Option (Option TomlOffset × List Char)
  | 'Z' :: rest | 'z' :: rest => some (some .universal, rest)
  | '+' :: rest => (takeMinutes rest).map fun (found, rest) => (some (.minutes found), rest)
  | '-' :: rest => (takeMinutes rest).map fun (found, rest) => (some (.minutes (-found)), rest)
  | text => some (none, text)

/-- Drop what stands between a date and a time. -/
def betweenDateAndTime : List Char → Option (List Char)
  | 'T' :: rest | 't' :: rest | ' ' :: rest => some rest
  | _ => none

/-- Take what follows a date: nothing, or a time and perhaps an offset. -/
def behindDate (date : TomlDate) (text : List Char) : Option (TomlDateTime × List Char) :=
  match (betweenDateAndTime text).bind takeTime with
  | none => some (.dateOnly date, text)
  | some (time, text) =>
      (takeOffset text).map fun (offset, text) => (.moment date time offset, text)

def take (text : List Char) : Option (TomlDateTime × List Char) :=
  match takeDate text with
  | some (date, text) => behindDate date text
  | none => (takeTime text).map fun (time, text) => (.timeOnly time, text)

end TomlDateTime
end TileBindery
