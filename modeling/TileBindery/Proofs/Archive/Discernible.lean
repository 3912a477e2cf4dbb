import TileBindery.Proofs.Archive.Lines
import TileBindery.Proofs.Archive.Partition
import TileBindery.Proofs.StableOrder

/-!
# Archives of lines that differ when their tiles do

Nothing in a line is quoted, so a separator that could be part of a number or of data lets different
tiles look alike.  The main statement says that archives of lines tell their tiles apart if their
separators stand out: a column separator is not made of digits alone, and data is ended by a
character that it cannot hold, in the line separator or in the column separator that comes next.
-/

namespace TileBindery

namespace Separator

variable {α : Type} [BEq α] [LawfulBEq α] {separator : List α} {p : α → Bool}

/-- A run of items of one kind ends where a separator with an item of another kind begins. -/
theorem run_append_inj {run other behind rest : List α} (all : ∀ item ∈ run, p item)
    (others : ∀ item ∈ other, p item) (stands_out : ∃ item ∈ separator, ¬p item)
    (same : run ++ (separator ++ behind) = other ++ (separator ++ rest)) :
    run = other ∧ behind = rest := by
  have cut := cut?_run all stands_out behind
  rw [same, cut?_run others stands_out rest] at cut
  obtain ⟨rfl, rfl⟩ := Prod.mk.inj (Option.some.inj cut)
  exact ⟨rfl, rfl⟩

/-- A run of items of one kind begins where a separator with an item of another kind ends. -/
theorem append_run_inj {front start run other : List α} (all : ∀ item ∈ run, p item)
    (others : ∀ item ∈ other, p item) (stands_out : ∃ item ∈ separator, ¬p item)
    (same : front ++ (separator ++ run) = start ++ (separator ++ other)) :
    front = start ∧ run = other := by
  obtain ⟨item, member, fails⟩ := stands_out
  have backwards := congrArg List.reverse same
  simp only [List.reverse_append, List.append_assoc] at backwards
  obtain ⟨runs, fronts⟩ := run_append_inj (p := p)
    (fun item member => all item (List.mem_reverse.1 member))
    (fun item member => others item (List.mem_reverse.1 member))
    ⟨item, List.mem_reverse.2 member, fails⟩ backwards
  exact ⟨List.reverse_injective fronts, List.reverse_injective runs⟩

end Separator

namespace BinaryEncoding

theorem encode_injective {encoding : BinaryEncoding} (real : encoding ≠ .plain) :
    Function.Injective encoding.encode := by
  intro octets others same
  have read := decode_encode real octets
  rw [same, decode_encode real others] at read
  exact (Except.ok.inj read).symm

end BinaryEncoding

/-- What a line says of a tile with data: no octets are no data. -/
def LineRecord.ofEntry (entry : Tile × Option Bytes) : LineRecord :=
  ⟨entry.1, entry.2.filter fun octets => !octets.isEmpty⟩

namespace Line

/-- Separators by which the lines of different tiles differ. -/
structure Discernible (options : LineOptions) : Prop where
  /-- Data is written as base64 or hexadecimal digits. -/
  coded : options.encoding ≠ .plain
  /-- A column separator is not made of digits alone. -/
  columns : ∃ c ∈ options.columnSeparator.toList, ¬c.isDigit
  /-- Data is ended by a character that it cannot hold.  This stands in the line separator, or in
  the column separator that comes next; then a line separator is not made of digits alone. -/
  lines : (∃ c ∈ options.lineSeparator.toList, c ∉ options.encoding.alphabet) ∨
    (∃ c ∈ options.lineSeparator.toList, ¬c.isDigit) ∧
      ∃ c ∈ options.columnSeparator.toList, c ∉ options.encoding.alphabet

/-- Lines, one behind the other. -/
def linesOf (options : LineOptions) (tiles : List (Tile × Option Bytes)) : List Char :=
  tiles.flatMap fun entry => ofTile options entry.1 entry.2

/-- The text of data in a line. -/
def dataText (options : LineOptions) (data : Option Bytes) : List Char :=
  (data.map options.encoding.encode).getD []

variable {options : LineOptions} {tile other : Tile} {data more : Option Bytes}
  {tiles others : List (Tile × Option Bytes)}

theorem linesOf_cons (options : LineOptions) (entry : Tile × Option Bytes)
    (tiles : List (Tile × Option Bytes)) :
    linesOf options (entry :: tiles) =
      body options entry.1 entry.2 ++ (options.lineSeparator.toList ++ linesOf options tiles) := by
  rw [linesOf, List.flatMap_cons, ofTile_eq, List.append_assoc, ← linesOf]

theorem decimal_injective : Function.Injective decimal := by
  intro n m same
  have value (n : Nat) : Nat.ofDigitChars 10 (decimal n) 0 = n :=
    Nat.ofDigitChars_toDigits (by decide) (by decide)
  rw [← value n, same, value m]

/-- The digits of numbers are symbols of data as well. -/
theorem mem_alphabet_of_isDigit {encoding : BinaryEncoding} (real : encoding ≠ .plain) {c : Char}
    (digit : c.isDigit) : c ∈ encoding.alphabet := by
  have digits : ∀ n < 10, Char.ofNat (48 + n) ∈ Base64.alphabet ∧
      Char.ofNat (48 + n) ∈ Hex.alphabet := by decide +kernel
  have bounds : 48 ≤ c.toNat ∧ c.toNat ≤ 57 := by
    simpa [Char.isDigit, UInt32.le_iff_toNat_le] using digit
  have member := digits (c.toNat - 48) (by omega)
  rw [Nat.add_sub_cancel' bounds.1, Char.ofNat_toNat] at member
  cases encoding with
  | plain => exact absurd rfl real
  | base64 => exact member.1
  | hex => exact member.2

theorem dataText_subset (coded : options.encoding ≠ .plain) (data : Option Bytes) :
    dataText options data ⊆ options.encoding.alphabet := by
  cases data with
  | none => exact List.nil_subset _
  | some octets => exact BinaryEncoding.encode_subset coded octets

/-- Data with the same text is the same, but for none and no octets. -/
theorem filter_eq_of_dataText (coded : options.encoding ≠ .plain)
    (same : dataText options data = dataText options more) :
    data.filter (fun octets => !octets.isEmpty) = more.filter fun octets => !octets.isEmpty := by
  have text (data : Option Bytes) :
      dataText options data = options.encoding.encode (data.getD []) := by
    cases data with
    | none => exact ((BinaryEncoding.encode_eq_nil_iff coded).2 rfl).symm
    | some octets => rfl
  have held (data : Option Bytes) : data.filter (fun octets => !octets.isEmpty) =
      if (data.getD []).isEmpty then none else some (data.getD []) := by
    cases data with
    | none => rfl
    | some octets => cases octets <;> rfl
  rw [text, text] at same
  rw [held, held, BinaryEncoding.encode_injective coded same]

/-- Numbers in front of column separators are told from what stands behind. -/
theorem body_append_inj (columns : ∃ c ∈ options.columnSeparator.toList, ¬c.isDigit)
    {behind rest : List Char}
    (same : body options tile data ++ behind = body options other more ++ rest) :
    tile = other ∧ dataText options data ++ behind = dataText options more ++ rest := by
  have cut {n m : Nat} {behind rest : List Char}
      (same : decimal n ++ (options.columnSeparator.toList ++ behind) =
        decimal m ++ (options.columnSeparator.toList ++ rest)) : n = m ∧ behind = rest := by
    obtain ⟨numbers, behind⟩ := Separator.run_append_inj (p := Char.isDigit)
      (fun c member => isDigit_of_mem_decimal member)
      (fun c member => isDigit_of_mem_decimal member) columns same
    exact ⟨decimal_injective numbers, behind⟩
  simp only [body, List.append_assoc] at same
  obtain ⟨x, same⟩ := cut same
  obtain ⟨y, same⟩ := cut same
  obtain ⟨z, same⟩ := cut same
  exact ⟨Tile.mk.injEq .. ▸ ⟨z, x, y⟩, same⟩

/-- The lines behind data begin with a number and a column separator, if there are any. -/
theorem linesOf_cases (options : LineOptions) (tiles : List (Tile × Option Bytes)) :
    linesOf options tiles = [] ∨ ∃ n behind,
      linesOf options tiles = decimal n ++ (options.columnSeparator.toList ++ behind) := by
  cases tiles with
  | nil => exact .inl rfl
  | cons entry tiles =>
      rw [linesOf_cons, body, List.append_assoc, List.append_assoc]
      exact .inr ⟨entry.1.x, _, rfl⟩

/-- Where a line separator could be data, what ends data is the next column separator. -/
theorem dataText_append_inj_of_symbols (coded : options.encoding ≠ .plain)
    (symbols : ∀ c ∈ options.lineSeparator.toList, c ∈ options.encoding.alphabet)
    (numbered : ∃ c ∈ options.lineSeparator.toList, ¬c.isDigit)
    (column : ∃ c ∈ options.columnSeparator.toList, c ∉ options.encoding.alphabet)
    (same : dataText options data ++ (options.lineSeparator.toList ++ linesOf options tiles) =
      dataText options more ++ (options.lineSeparator.toList ++ linesOf options others)) :
    dataText options data = dataText options more ∧
      linesOf options tiles = linesOf options others := by
  have ended (data : Option Bytes) :
      dataText options data ++ options.lineSeparator.toList ⊆ options.encoding.alphabet :=
    List.append_subset.2 ⟨dataText_subset coded data, symbols⟩
  have numeral (data : Option Bytes) (n : Nat) :
      ∀ c ∈ dataText options data ++ (options.lineSeparator.toList ++ decimal n),
        decide (c ∈ options.encoding.alphabet) = true := by
    intro c member
    rw [← List.append_assoc] at member
    rcases List.mem_append.1 member with front | digits
    · exact decide_eq_true (ended data front)
    · exact decide_eq_true (mem_alphabet_of_isDigit coded (isDigit_of_mem_decimal digits))
  have apart {data more : Option Bytes} {n : Nat} {behind : List Char}
      (same : dataText options data ++ options.lineSeparator.toList =
        dataText options more ++ (options.lineSeparator.toList ++
          (decimal n ++ (options.columnSeparator.toList ++ behind)))) : False := by
    obtain ⟨c, member, outside⟩ := column
    refine outside (ended data ?_)
    rw [same]
    simp [member]
  rcases linesOf_cases options tiles with last | ⟨n, behind, line⟩ <;>
    rcases linesOf_cases options others with last_too | ⟨m, rest, line_too⟩
  · rw [last, last_too] at same ⊢
    exact ⟨List.append_cancel_right same, rfl⟩
  · rw [last, line_too, List.append_nil] at same
    exact (apart same).elim
  · rw [line, last_too, List.append_nil] at same
    exact (apart same.symm).elim
  · rw [line, line_too] at same ⊢
    have regroup (data : Option Bytes) (n : Nat) (behind : List Char) :
        dataText options data ++ (options.lineSeparator.toList ++
            (decimal n ++ (options.columnSeparator.toList ++ behind))) =
          dataText options data ++ (options.lineSeparator.toList ++ decimal n) ++
            (options.columnSeparator.toList ++ behind) := by
      simp only [List.append_assoc]
    rw [regroup, regroup] at same
    obtain ⟨front, rfl⟩ := Separator.run_append_inj (numeral data n) (numeral more m)
      (by simpa using column) same
    obtain ⟨texts, numbers⟩ := Separator.append_run_inj (p := Char.isDigit)
      (fun c member => isDigit_of_mem_decimal member)
      (fun c member => isDigit_of_mem_decimal member) numbered front
    exact ⟨texts, by rw [numbers]⟩

/-- Data is told from the lines behind it. -/
theorem dataText_append_inj (discernible : Discernible options)
    (same : dataText options data ++ (options.lineSeparator.toList ++ linesOf options tiles) =
      dataText options more ++ (options.lineSeparator.toList ++ linesOf options others)) :
    dataText options data = dataText options more ∧
      linesOf options tiles = linesOf options others := by
  obtain ⟨coded, -, lines⟩ := discernible
  by_cases ended : ∃ c ∈ options.lineSeparator.toList, c ∉ options.encoding.alphabet
  · have text (data : Option Bytes) : ∀ c ∈ dataText options data,
        decide (c ∈ options.encoding.alphabet) = true := fun c member =>
      decide_eq_true (dataText_subset coded data member)
    exact Separator.run_append_inj (text data) (text more) (by simpa using ended) same
  · obtain ⟨numbered, column⟩ := lines.resolve_left ended
    exact dataText_append_inj_of_symbols coded (by simpa using ended) numbered column same

/-- Lines that look alike say the same. -/
theorem ofEntry_eq_of_linesOf (discernible : Discernible options)
    (same : linesOf options tiles = linesOf options others) :
    tiles.map LineRecord.ofEntry = others.map LineRecord.ofEntry := by
  induction tiles generalizing others with
  | nil =>
      cases others with
      | nil => rfl
      | cons entry others =>
          rw [linesOf_cons] at same
          exact absurd (List.append_eq_nil_iff.1 same.symm).1 body_ne_nil
  | cons entry tiles ih =>
      cases others with
      | nil =>
          rw [linesOf_cons] at same
          exact absurd (List.append_eq_nil_iff.1 same).1 body_ne_nil
      | cons other others =>
          rw [linesOf_cons, linesOf_cons] at same
          obtain ⟨tile, behind⟩ := body_append_inj discernible.columns same
          obtain ⟨data, rest⟩ := dataText_append_inj discernible behind
          have first : LineRecord.ofEntry entry = LineRecord.ofEntry other :=
            LineRecord.mk.injEq .. ▸ ⟨tile, filter_eq_of_dataText discernible.coded data⟩
          rw [List.map_cons, List.map_cons, first, ih rest]

end Line

/-! ### Archives -/

namespace ArchiveConfig

variable {config : ArchiveConfig} {tiles others : List (Tile × Option Bytes)}

theorem tileOctets_eq_encode (text : config.format.isText) (tiles : List (Tile × Option Bytes)) :
    config.tileOctets tiles = Utf8.encode (Line.linesOf config.lines tiles) := by
  rw [tileOctets, Line.linesOf, List.flatMap_def, List.flatMap_def, Utf8.encode_flatten,
    List.map_map]
  refine congrArg List.flatten (List.map_congr_left fun entry _ => ?_)
  exact LineStream.flatten_tilePieces text entry.1 entry.2

/-- Tiles whose lines have the same octets say the same. -/
theorem ofEntry_eq_of_tileOctets (text : config.format.isText)
    (discernible : Line.Discernible config.lines)
    (same : config.tileOctets tiles = config.tileOctets others) :
    tiles.map LineRecord.ofEntry = others.map LineRecord.ofEntry := by
  rw [tileOctets_eq_encode text, tileOctets_eq_encode text] at same
  have read := Utf8.decode_encode (Line.linesOf config.lines tiles)
  rw [same, Utf8.decode_encode] at read
  exact Line.ofEntry_eq_of_linesOf discernible (Except.ok.inj read).symm

end ArchiveConfig

namespace ArchiveWriter

open Routing

variable {σ η : Type} {shelf other : Shelf σ η} {config : ArchiveConfig}
  {tiles others : List (Tile × Option Bytes)} {world left start behind : σ}

theorem ofOutlets_ok {outlet : Nat → Outlet σ η} {writer : ArchiveWriter σ η}
    (made : ofOutlets config outlet = .ok writer) :
    writer =
      ⟨(List.range config.shards).map fun index => .ofOutlet index config (outlet index), 0⟩ := by
  rw [ofOutlets, ofShards] at made
  split at made
  next => simp at made
  next => exact (Except.ok.inj made).symm

/-- Behind what a destination held, an archive has its header, its tiles and its footer. -/
theorem held_of_archive {first last : Metadata} {handles : List η} (sound : shelf.Sound world)
    (archived : archive config shelf.outlet first last tiles world = (.ok handles, left)) :
    ∀ index < config.shards, shelf.held index left = shelf.held index world ++
      (config.headerPieces first).flatten ++
      config.tileOctets (routed config.shards index tiles) ++
      (config.footerPieces last).flatten := by
  rw [archive] at archived
  split at archived
  next => simp at archived
  next writer made =>
    obtain rfl := ofOutlets_ok made
    split at archived
    next => simp at archived
    next began =>
      split at archived
      next => simp at archived
      next filled written wrote =>
        obtain ⟨finished, rfl⟩ := Prod.mk.inj archived
        have fresh (index : Nat) (shard : Shard σ η)
            (found : ((List.range config.shards).map fun index =>
              Shard.ofOutlet index config (shelf.outlet index))[index]? = some shard) :
            ∃ number, shard = .ofOutlet number config (shelf.outlet index) := by
          obtain ⟨below, rfl⟩ := List.getElem?_eq_some_iff.1 found
          exact ⟨index, by simp⟩
        obtain ⟨-, size, each⟩ := ((fills_begin sound fresh began).writeAll wrote).finish
          (Prod.ext finished rfl)
        rw [List.length_map, List.length_range] at size each
        intro index below
        have complete := each index _ (List.getElem?_eq_getElem (size ▸ below))
        rw [Nat.zero_add, List.nil_append] at complete
        exact complete.held

theorem shards_pos_of_archive {outlet : Nat → Outlet σ η} {first last : Metadata}
    {handles : List η}
    (archived : archive config outlet first last tiles world = (.ok handles, left)) :
    0 < config.shards := by
  refine Nat.pos_of_ne_zero fun none => ?_
  simp [archive, ofOutlets, none, ofShards] at archived

/-- What an archive has put behind what a destination held. -/
def added (shelf : Shelf σ η) (index : Nat) (world left : σ) : Bytes :=
  (shelf.held index left).drop (shelf.held index world).length

/-- An archive of lines is nothing but its lines. -/
theorem added_of_archive {first last : Metadata} {handles : List η}
    (text : config.format.isText) (sound : shelf.Sound world)
    (archived : archive config shelf.outlet first last tiles world = (.ok handles, left))
    {index : Nat} (below : index < config.shards) :
    added shelf index world left = config.tileOctets (routed config.shards index tiles) := by
  rw [added, held_of_archive sound archived index below, ArchiveConfig.headerPieces,
    ArchiveConfig.footerPieces, if_pos text, if_pos text, List.flatten_nil, List.append_nil,
    List.append_nil, List.drop_left]

/-- Tiles in ascending order are told by what goes to each shard. -/
theorem map_ofEntry_eq_of_ascending {shards : Nat} (some_shard : 0 < shards)
    (ascending : tiles.Pairwise fun a b => a.1.id ≤ b.1.id)
    (ascending_too : others.Pairwise fun a b => a.1.id ≤ b.1.id)
    (same : ∀ index < shards, (routed shards index tiles).map LineRecord.ofEntry =
      (routed shards index others).map LineRecord.ofEntry) :
    tiles.map LineRecord.ofEntry = others.map LineRecord.ofEntry := by
  have order {tiles : List (Tile × Option Bytes)}
      (ascending : tiles.Pairwise fun a b => a.1.id ≤ b.1.id) :
      StableOrder (fun record : LineRecord => record.tile.id) (tiles.map LineRecord.ofEntry)
        (tiles.map LineRecord.ofEntry) :=
    ⟨List.pairwise_map.2 ascending, fun _ => rfl⟩
  -- all tiles with one identifier go to one shard
  have own (tiles : List (Tile × Option Bytes)) (value : Nat) :
      (tiles.map LineRecord.ofEntry).filter (fun record => record.tile.id = value) =
        ((routed shards (shardOf value shards) tiles).map LineRecord.ofEntry).filter
          fun record => record.tile.id = value := by
    rw [routed, List.filter_map, List.filter_map, List.filter_filter]
    refine congrArg (List.map LineRecord.ofEntry) (List.filter_congr fun entry _ => ?_)
    by_cases named : entry.1.id = value <;> simp [LineRecord.ofEntry, named]
  refine (order ascending).unique ((order ascending_too).congr fun value => ?_)
  rw [own tiles, own others, same _ (shardOf_lt some_shard)]

/-- Archives of lines with separators that stand out tell their tiles apart.  What two archives say
of the tiles of each shard is the same if they have put the same octets into every shard.  So they
say the same of the same tiles; in the same order, if there is one shard or the tiles ascend. -/
theorem archives_tell_tiles_apart {first last opening closing : Metadata} {handles owners : List η}
    (text : config.format.isText) (discernible : Line.Discernible config.lines)
    (sound : shelf.Sound world) (sound_too : other.Sound start)
    (archived : archive config shelf.outlet first last tiles world = (.ok handles, left))
    (archived_too :
      archive config other.outlet opening closing others start = (.ok owners, behind))
    (same : ∀ index < config.shards,
      added shelf index world left = added other index start behind) :
    (∀ index < config.shards, (routed config.shards index tiles).map LineRecord.ofEntry =
      (routed config.shards index others).map LineRecord.ofEntry) ∧
    (tiles.map LineRecord.ofEntry).Perm (others.map LineRecord.ofEntry) ∧
    (config.shards = 1 ∨ (tiles.Pairwise fun a b => a.1.id ≤ b.1.id) ∧
        (others.Pairwise fun a b => a.1.id ≤ b.1.id) →
      tiles.map LineRecord.ofEntry = others.map LineRecord.ofEntry) := by
  have each (index : Nat) (below : index < config.shards) :
      (routed config.shards index tiles).map LineRecord.ofEntry =
        (routed config.shards index others).map LineRecord.ofEntry := by
    have octets := same index below
    rw [added_of_archive text sound archived below,
      added_of_archive text sound_too archived_too below] at octets
    exact ArchiveConfig.ofEntry_eq_of_tileOctets text discernible octets
  have some_shard : 0 < config.shards := shards_pos_of_archive archived
  refine ⟨each, ?_, ?_⟩
  · have parts (tiles : List (Tile × Option Bytes)) :=
      (perm_routed some_shard tiles).map LineRecord.ofEntry
    simp only [List.map_flatMap] at parts
    refine (parts tiles).symm.trans (List.Perm.trans (List.Perm.of_eq ?_) (parts others))
    exact List.flatMap_congr fun index member => each index (List.mem_range.1 member)
  · rintro (single | ⟨ascending, ascending_too⟩)
    · have all (tiles : List (Tile × Option Bytes)) : routed config.shards 0 tiles = tiles :=
        List.filter_eq_self.2 fun entry _ => by simp [single, shardOf]
      have own := each 0 some_shard
      rwa [all, all] at own
    · exact map_ofEntry_eq_of_ascending some_shard ascending ascending_too each

/-- Two shards of lines that end in a digit of data. -/
def endedByDigit : ArchiveConfig := ⟨.csv, 2, false, ⟨"x", "a", .hex⟩⟩

/-- Archives in memory of tiles that differ in nothing but empty data. -/
def inMemory (data : Option Bytes) (files : List MemoryFile) :
    Except ArchiveError (List Nat) × List MemoryFile :=
  archive endedByDigit MemoryFile.shelf.outlet .empty .empty
    [(⟨2, 0, 0⟩, some [0xaa]), (⟨2, 1, 0⟩, data)] files

/-- Separators may be letters, and digits of data in part. -/
theorem archives_tell_tiles_apart_letters :
    (inMemory none [⟨false, none, [7]⟩, ⟨false, none, []⟩]).1.isOk ∧
      (inMemory (some []) [⟨false, none, []⟩, ⟨false, some 99, [8, 9]⟩]).1.isOk ∧
      [(⟨2, 0, 0⟩, some [0xaa]), (⟨2, 1, 0⟩, none)].map LineRecord.ofEntry =
        [(⟨2, 0, 0⟩, some [0xaa]), (⟨2, 1, 0⟩, some [])].map LineRecord.ofEntry := by
  have written : (inMemory none [⟨false, none, [7]⟩, ⟨false, none, []⟩]).1.isOk := by
    decide +kernel
  have written_too :
      (inMemory (some []) [⟨false, none, []⟩, ⟨false, some 99, [8, 9]⟩]).1.isOk := by
    decide +kernel
  obtain ⟨handles, archived⟩ := exists_ok written
  obtain ⟨owners, archived_too⟩ := exists_ok written_too
  have stands_out : Line.Discernible endedByDigit.lines :=
    ⟨by decide, ⟨'x', by decide, by decide⟩,
      .inr ⟨⟨'a', by decide, by decide⟩, 'x', by decide, by decide⟩⟩
  have sound (files : List MemoryFile) : MemoryFile.shelf.Sound files := trivial
  obtain ⟨-, -, alike⟩ := archives_tell_tiles_apart (by decide) stands_out (sound _) (sound _)
    archived archived_too (by decide +kernel)
  exact ⟨written, written_too, alike (.inr ⟨by decide, by decide⟩)⟩

/-- What writing tiles to new files comes to. -/
def archiveFiles (config : ArchiveConfig) (tiles : List (Tile × Option Bytes)) :
    Except ArchiveError (List OpenFile) × Disk :=
  archive config (fileOf config "tiles") .empty .empty tiles .empty

/-- Accepted options with which the files of different tiles are the same. -/
structure LooksAlike (config : ArchiveConfig) (tiles others : List (Tile × Option Bytes)) :
    Prop where
  accepted : config.check = .ok ()
  text : config.format.isText
  coded : config.lines.encoding ≠ .plain
  different : tiles.map LineRecord.ofEntry ≠ others.map LineRecord.ofEntry
  archived : (archiveFiles config tiles).1.isOk
  same : archiveFiles config tiles = archiveFiles config others

/-- None of the conditions can be left out: columns between digits, lines that end in digits, lines
between symbols of data, and tiles that change places in different shards. -/
theorem archives_look_alike :
    LooksAlike ⟨.csv, 1, false, ⟨"1", "\n", .base64⟩⟩
      [(⟨4, 1, 11⟩, none)] [(⟨4, 11, 1⟩, none)] ∧
    LooksAlike ⟨.csv, 1, false, ⟨",", "1", .hex⟩⟩
      [(⟨7, 0, 0⟩, none), (⟨7, 111, 0⟩, none)] [(⟨7, 0, 0⟩, some [0x11]), (⟨7, 1, 0⟩, none)] ∧
    LooksAlike ⟨.csv, 1, false, ⟨"aa", "a", .hex⟩⟩
      [(⟨0, 0, 0⟩, none), (⟨0, 0, 0⟩, none)]
      [(⟨0, 0, 0⟩, some [0xa0, 0xaa, 0x0a, 0xa0, 0xaa])] ∧
    LooksAlike ⟨.csv, 2, false, .csv⟩
      [(⟨2, 0, 0⟩, none), (⟨2, 1, 0⟩, none)] [(⟨2, 1, 0⟩, none), (⟨2, 0, 0⟩, none)] := by
  refine ⟨?_, ?_, ?_, ?_⟩
  · constructor <;> decide +kernel
  · constructor <;> decide +kernel
  · constructor <;> decide +kernel
  · constructor <;> decide +kernel

end ArchiveWriter
end TileBindery
