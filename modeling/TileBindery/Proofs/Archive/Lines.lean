import TileBindery.Archive.Encoding
import TileBindery.Archive.LineStream
import TileBindery.Proofs.Text.Encodings
import TileBindery.Proofs.Text.Numerals

/-!
# Lines are read as they were written

Nothing in a line is quoted, so it is read as it was written if its separators can be told from the
columns: a column separator is not made of digits alone, and a line separator starts with a
character that stands nowhere in a line.  The main statement says that a text archive with such
separators gives back its tiles, whether or not the last line is ended.
-/

namespace TileBindery

namespace Separator

variable {α : Type} {separator : List α}

/-- In front of items that satisfy `p`, a sequence that does not ends where it ended. -/
theorem takeWhile_append_of_other {p : α → Bool} (other : ∃ item ∈ separator, ¬p item)
    (behind : List α) : (separator ++ behind).takeWhile p = separator.takeWhile p := by
  obtain ⟨item, member, fails⟩ := other
  rw [List.takeWhile_append, if_neg]
  intro whole
  have all := List.all_takeWhile (p := p) (l := separator)
  rw [(List.takeWhile_prefix p).eq_of_length whole] at all
  exact fails (List.all_eq_true.1 all item member)

variable [BEq α] [LawfulBEq α]

/-- A separator with an item of another kind is found right behind a run of items of one kind. -/
theorem cut?_run {p : α → Bool} {run : List α} (all : ∀ item ∈ run, p item)
    (other : ∃ item ∈ separator, ¬p item) (behind : List α) :
    cut? separator (run ++ (separator ++ behind)) = some (run, behind) := by
  obtain ⟨item, member, -⟩ := id other
  rw [cut?_append, cut?_here (List.ne_nil_of_mem member)]
  · simp
  -- Earlier, the item of the other kind would stand inside the run.
  · rintro first rest suffix ⟨others, shape⟩
    have runs : ∀ item ∈ first :: rest, p item := fun item member =>
      all item (suffix.subset member)
    have lengths := congrArg (fun items => (items.takeWhile p).length) shape
    simp only [takeWhile_append_of_other other, List.takeWhile_append_of_pos runs,
      List.length_append, List.length_cons] at lengths
    omega

end Separator

namespace Line

/-! ### Numbers -/

theorem isDigit_of_mem_decimal {n : Nat} {c : Char} (member : c ∈ decimal n) : c.isDigit :=
  Digits.isDigit_of_mem_toDigits member

theorem le_ofDigitChars (digits : List Char) (value : Nat) :
    value ≤ Nat.ofDigitChars 10 digits value := by
  induction digits generalizing value with
  | nil => exact Nat.le_refl value
  | cons c digits ih =>
      rw [Nat.ofDigitChars_cons]
      exact Nat.le_trans (by omega) (ih _)

theorem digitsValue?_eq {digits : List Char} (all : ∀ c ∈ digits, c.isDigit) {value : Nat}
    (small : Nat.ofDigitChars 10 digits value < 2 ^ 32) :
    digitsValue? value digits = some (Nat.ofDigitChars 10 digits value) := by
  induction digits generalizing value with
  | nil => rfl
  | cons c digits ih =>
      rw [Nat.ofDigitChars_cons] at small ⊢
      have longer : value * 10 + (c.toNat - 48) = 10 * value + (c.toNat - '0'.toNat) := by
        rw [Nat.mul_comm]
        rfl
      have fits := Nat.lt_of_le_of_lt (le_ofDigitChars digits _) small
      rw [digitsValue?, longer]
      simp only [all c List.mem_cons_self, fits, and_self, if_true]
      exact ih (fun other member => all other (List.mem_cons_of_mem _ member)) small

/-- A number of 32 bits is read as it was written. -/
theorem number?_decimal {n : Nat} (small : n < 2 ^ 32) : number? (decimal n) = some n := by
  have value : Nat.ofDigitChars 10 (decimal n) 0 = n :=
    Nat.ofDigitChars_toDigits (by decide) (by decide)
  have read := digitsValue?_eq (fun c member => isDigit_of_mem_decimal member) (value ▸ small)
  rw [value] at read
  have present : decimal n ≠ [] := Nat.toDigits_ne_nil
  unfold number?
  split
  next digits signed =>
    have sign : '+' ∈ decimal n := by
      rw [signed]
      exact List.mem_cons_self
    exact absurd (isDigit_of_mem_decimal sign) (by decide)
  next =>
    rw [if_neg (by simpa using present), read]

/-! ### One line -/

/-- Separators that can be told from the columns of a line. -/
structure Separable (options : LineOptions) : Prop where
  /-- Data is written as base64 or hexadecimal digits. -/
  coded : options.encoding ≠ .plain
  /-- A column separator is not made of digits alone. -/
  columns : ∃ c ∈ options.columnSeparator.toList, ¬c.isDigit
  /-- A line separator starts with a character that stands nowhere in a line. -/
  lines : ∃ first rest, options.lineSeparator.toList = first :: rest ∧
    first ∉ options.columnSeparator.toList ∧ ¬first.isDigit ∧ first ∉ options.encoding.alphabet

variable {options : LineOptions} {tile : Tile} {data : Option Bytes}

/-- A tile's line without the separator behind it. -/
def body (options : LineOptions) (tile : Tile) (data : Option Bytes) : List Char :=
  decimal tile.x ++ (options.columnSeparator.toList ++ (decimal tile.y ++
    (options.columnSeparator.toList ++ (decimal tile.z ++ (options.columnSeparator.toList ++
      (data.map options.encoding.encode).getD [])))))

theorem ofTile_eq (options : LineOptions) (tile : Tile) (data : Option Bytes) :
    ofTile options tile data = body options tile data ++ options.lineSeparator.toList := by
  simp [ofTile, pieces, body]

theorem body_ne_nil : body options tile data ≠ [] :=
  List.append_ne_nil_of_left_ne_nil Nat.toDigits_ne_nil _

theorem not_mem_body {first : Char} (column : first ∉ options.columnSeparator.toList)
    (digit : ¬first.isDigit) (symbol : first ∉ options.encoding.alphabet)
    (coded : options.encoding ≠ .plain) (tile : Tile) (data : Option Bytes) :
    first ∉ body options tile data := by
  have number (n : Nat) : first ∉ decimal n := fun member => digit (isDigit_of_mem_decimal member)
  have text : first ∉ (data.map options.encoding.encode).getD [] := by
    cases data with
    | none => exact List.not_mem_nil
    | some octets => exact fun member => symbol (BinaryEncoding.encode_subset coded octets member)
  simp only [body, List.mem_append, not_or]
  exact ⟨number _, column, number _, column, number _, column, text⟩

/-- A text that lacks a character of the ending keeps its end. -/
theorem dropEnding_of_absent {first : Char} {ending text : List Char} (member : first ∈ ending)
    (absent : first ∉ text) : dropEnding ending text = text := by
  rw [dropEnding, if_neg]
  intro suffix
  exact absent ((List.isSuffixOf_iff_suffix.1 suffix).subset member)

theorem columns_body (columns_end : ∃ c ∈ options.columnSeparator.toList, ¬c.isDigit) :
    columns options.columnSeparator.toList 3 (body options tile data) =
      [decimal tile.x, decimal tile.y, decimal tile.z,
        (data.map options.encoding.encode).getD []] := by
  have cut (n : Nat) (behind : List Char) := Separator.cut?_run
    (fun c member => isDigit_of_mem_decimal (n := n) member) columns_end behind
  simp only [body, columns, cut]

/-- Columns and rows of tiles have 32 bits. -/
theorem side_le (valid : tile.Valid) : Tile.side tile.z ≤ 2 ^ 15 :=
  Nat.pow_le_pow_right (by decide) valid.1

/-- A tile's line says the tile and its data, which is none if it is empty. -/
theorem parse_body (separable : Separable options) (valid : tile.Valid) :
    parse options (body options tile data) =
      .ok ⟨tile, data.filter fun octets => !octets.isEmpty⟩ := by
  obtain ⟨first, rest, ending, column, digit, symbol⟩ := separable.lines
  have absent := not_mem_body column digit symbol separable.coded tile data
  have line : dropEnding options.lineSeparator.toList (body options tile data) = _ :=
    dropEnding_of_absent (by rw [ending]; exact List.mem_cons_self) absent
  have side := side_le valid
  have read {n : Nat} (small : n < 2 ^ 15) (text : List Char) (name : NumberColumn) :
      numberColumn text name (some (decimal n)) = .ok n := by
    rw [numberColumn, number?_decimal (by omega)]
  have x := Nat.lt_of_lt_of_le valid.2.1 side
  have y := Nat.lt_of_lt_of_le valid.2.2 side
  have z : tile.z ≤ 15 := valid.1
  rw [parse, line, columns_body separable.columns]
  simp only [List.getElem?_cons_zero, List.getElem?_cons_succ, read x, read y,
    read (n := tile.z) (by omega), bind, Except.bind]
  rw [if_neg (by omega), Tile.at?_of_valid valid]
  cases data with
  | none => rfl
  | some octets =>
      have empty : (options.encoding.encode octets).isEmpty = octets.isEmpty := by
        rw [Bool.eq_iff_iff, List.isEmpty_iff, List.isEmpty_iff,
          BinaryEncoding.encode_eq_nil_iff separable.coded]
      simp only [Option.map_some, Option.getD_some, empty,
        BinaryEncoding.decode_encode separable.coded]
      cases octets <;> rfl

end Line

namespace LineStream

open Line

variable {options : LineOptions}

theorem items_of_ended {source : ByteSource}
    (ended : next (Utf8.encode options.lineSeparator.toList) source = .ended) :
    items options source = [] := by
  rw [items]
  split
  next => rfl
  next found => simp [ended] at found
  next found => simp [ended] at found

theorem items_of_line {source rest : ByteSource} {line : Bytes} {found : LineRecord}
    (cut : next (Utf8.encode options.lineSeparator.toList) source = .line line rest)
    (read : record options line = .ok found) :
    items options source = .ok found :: items options rest := by
  rw [items]
  split
  next ended => simp [cut] at ended
  next failed => simp [cut] at failed
  next taken =>
    rw [cut] at taken
    cases taken
    rw [read]

theorem record_body (separable : Separable options) {tile : Tile} (valid : tile.Valid)
    (data : Option Bytes) : record options (Utf8.encode (body options tile data)) =
      .ok ⟨tile, data.filter fun octets => !octets.isEmpty⟩ := by
  rw [record, Utf8.decode_encode]
  simp only [parse_body separable valid]
  rfl

/-- A line that is ended is read, and then what stands behind it. -/
theorem items_ofTile (separable : Separable options) {tile : Tile} (valid : tile.Valid)
    (data : Option Bytes) (behind : Bytes) :
    items options (.ofBytes (Utf8.encode (ofTile options tile data) ++ behind)) =
      .ok ⟨tile, data.filter fun octets => !octets.isEmpty⟩ :: items options (.ofBytes behind) := by
  obtain ⟨first, rest, ending, column, digit, symbol⟩ := separable.lines
  have absent := not_mem_body column digit symbol separable.coded tile data
  refine items_of_line ?_ (record_body separable valid data)
  rw [ofTile_eq, Utf8.encode_append, List.append_assoc, ending, next,
    if_neg (by simpa using Utf8.encode_cons_ne_nil first rest)]
  simp only [ByteSource.ofBytes, Utf8.cut?_encode absent]

theorem items_nil (separable : Separable options) : items options (.ofBytes []) = [] := by
  obtain ⟨first, rest, ending, -⟩ := separable.lines
  apply items_of_ended
  have absent : Separator.cut? (Utf8.encode (first :: rest)) [] = none :=
    @Utf8.cut?_encode_none first [] List.not_mem_nil rest
  rw [ending, next, if_neg (by simpa using Utf8.encode_cons_ne_nil first rest)]
  simp [ByteSource.ofBytes, absent]

/-- A line that is not ended is the last. -/
theorem items_body (separable : Separable options) {tile : Tile} (valid : tile.Valid)
    (data : Option Bytes) :
    items options (.ofBytes (Utf8.encode (body options tile data))) =
      [.ok ⟨tile, data.filter fun octets => !octets.isEmpty⟩] := by
  obtain ⟨first, rest, ending, column, digit, symbol⟩ := separable.lines
  have absent := not_mem_body column digit symbol separable.coded tile data
  have present : Utf8.encode (body options tile data) ≠ [] := by
    obtain ⟨c, others, shape⟩ := List.exists_cons_of_ne_nil body_ne_nil
    rw [shape]
    exact Utf8.encode_cons_ne_nil c others
  have cut : next (Utf8.encode options.lineSeparator.toList)
      (.ofBytes (Utf8.encode (body options tile data))) =
        .line (Utf8.encode (body options tile data)) (.ofBytes []) := by
    rw [ending, next, if_neg (by simpa using Utf8.encode_cons_ne_nil first rest)]
    simp [ByteSource.ofBytes, Utf8.cut?_encode_none absent, present]
  rw [items_of_line cut (record_body separable valid data), items_nil separable]

section Archives

variable {config : ArchiveConfig} {tiles : List (Tile × Option Bytes)}

/-- The octets of a tile's line, as they are handed to a destination. -/
theorem flatten_tilePieces (text : config.format.isText) (tile : Tile) (data : Option Bytes) :
    (config.tilePieces tile data).flatten = Utf8.encode (ofTile config.lines tile data) := by
  rw [ArchiveConfig.tilePieces, if_pos text, ofTile, Utf8.encode_flatten]

/-- Lines that are ended are read, and then what stands behind them. -/
theorem items_append (text : config.format.isText) (separable : Separable config.lines)
    (valid : ∀ entry ∈ tiles, entry.1.Valid) (behind : Bytes) :
    items config.lines (.ofBytes (config.tileOctets tiles ++ behind)) =
      tiles.map (fun entry => .ok ⟨entry.1, entry.2.filter fun octets => !octets.isEmpty⟩) ++
        items config.lines (.ofBytes behind) := by
  induction tiles with
  | nil => rfl
  | cons entry tiles ih =>
      have rest := ih fun other member => valid other (List.mem_cons_of_mem _ member)
      have here := items_ofTile separable (valid entry List.mem_cons_self) entry.2
        (config.tileOctets tiles ++ behind)
      rw [ArchiveConfig.tileOctets, List.flatMap_cons, List.append_assoc, flatten_tilePieces text,
        ← ArchiveConfig.tileOctets, here, rest]
      rfl

/-- A text archive whose separators can be told from the columns gives back its tiles in order, with
their data and none for no octets, and then ends, also if its last line is not ended. -/
theorem items_tileOctets (text : config.format.isText) (separable : Separable config.lines)
    (valid : ∀ entry ∈ tiles, entry.1.Valid) :
    items config.lines (.ofBytes (config.tileOctets tiles)) = tiles.map (fun entry =>
        .ok ⟨entry.1, entry.2.filter fun octets => !octets.isEmpty⟩) ∧
      ∀ octets, octets ++ Utf8.encode config.lines.lineSeparator.toList = config.tileOctets tiles →
        items config.lines (.ofBytes octets) = tiles.map fun entry =>
          .ok ⟨entry.1, entry.2.filter fun octets => !octets.isEmpty⟩ := by
  constructor
  · have read := items_append text separable valid []
    rwa [List.append_nil, items_nil separable, List.append_nil] at read
  · intro octets whole
    rcases List.eq_nil_or_concat tiles with rfl | ⟨front, last, rfl⟩
    · obtain ⟨first, rest, ending, -⟩ := separable.lines
      rw [ending] at whole
      exact absurd (List.append_eq_nil_iff.1 whole).2 (Utf8.encode_cons_ne_nil first rest)
    · rw [List.concat_eq_append] at valid whole ⊢
      have front_valid : ∀ entry ∈ front, entry.1.Valid := fun entry member =>
        valid entry (List.mem_append_left _ member)
      have last_valid := valid last (List.mem_append_right _ List.mem_cons_self)
      rw [ArchiveConfig.tileOctets, List.flatMap_append, List.flatMap_singleton,
        flatten_tilePieces text, ofTile_eq, Utf8.encode_append, ← List.append_assoc] at whole
      rw [List.append_cancel_right whole, ← ArchiveConfig.tileOctets,
        items_append text separable front_valid, items_body separable last_valid, List.map_append]
      rfl

/-- Lines with a column separator that starts and ends with digits. -/
def digitConfig : ArchiveConfig := ⟨.csv, 1, false, ⟨"1,1", "\n1", .hex⟩⟩

def digitTiles : List (Tile × Option Bytes) :=
  [(⟨4, 11, 1⟩, some [17, 171]), (⟨0, 0, 0⟩, some []), (⟨0, 0, 0⟩, none)]

theorem items_tileOctets_digitTiles :
    (digitConfig.format.isText ∧ Separable digitConfig.lines ∧
      ∀ entry ∈ digitTiles, entry.1.Valid) ∧
    items digitConfig.lines (.ofBytes (digitConfig.tileOctets digitTiles)) =
      [.ok ⟨⟨4, 11, 1⟩, some [17, 171]⟩, .ok ⟨⟨0, 0, 0⟩, none⟩, .ok ⟨⟨0, 0, 0⟩, none⟩] := by
  have separable : Separable digitConfig.lines := by
    refine ⟨by decide, ⟨',', by decide, by decide⟩, '\n', ['1'], ?_⟩
    decide
  have valid : ∀ entry ∈ digitTiles, entry.1.Valid := by decide
  exact ⟨⟨rfl, separable, valid⟩, (items_tileOctets rfl separable valid).1⟩

end Archives

end LineStream
end TileBindery
