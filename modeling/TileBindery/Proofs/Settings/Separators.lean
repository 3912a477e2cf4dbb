import Mathlib.Algebra.Group.Nat.Even
import TileBindery.Proofs.Pipeline.Preparation

/-!
# Separators are set by texts with escapes

A text for a separator is a row of symbols, each of which stands for one character.  Where it falls
into symbols decides which backslash starts a pair: of backslashes in a row every other one does.
The main statement says which texts are read, and as what, and that every separator is set by the
text with its backslashes doubled.
-/

namespace TileBindery

namespace Separator

/-- The pairs that are read: a letter behind a backslash, and the character they stand for. -/
def pairs : List (Char × Char) := [('t', '\t'), ('n', '\n'), ('r', '\r'), ('\\', '\\')]

/-- What a text is made of: a character that stands for itself, or a backslash and a letter. -/
inductive Symbol where
  | plain (c : Char) (ordinary : c ≠ '\\')
  | pair (letter c : Char) (known : (letter, c) ∈ pairs)

namespace Symbol

/-- How a symbol is written. -/
def code : Symbol → List Char
  | plain c _ => [c]
  | pair letter _ _ => ['\\', letter]

/-- The character that a symbol stands for. -/
def meaning : Symbol → Char
  | plain c _ => c
  | pair _ c _ => c

theorem code_ne_nil (symbol : Symbol) : symbol.code ≠ [] := by
  cases symbol <;> exact List.cons_ne_nil _ _

end Symbol

open Separator.Symbol

theorem flatMap_code_eq_nil_iff {symbols : List Symbol} :
    symbols.flatMap code = [] ↔ symbols = [] := by
  cases symbols with
  | nil => exact iff_of_true rfl rfl
  | cons symbol symbols =>
      refine iff_of_false ?_ (List.cons_ne_nil _ _)
      exact List.append_ne_nil_of_left_ne_nil symbol.code_ne_nil _

/-! ### Symbol by symbol -/

theorem escaped?_eq_some_iff {letter c : Char} :
    escaped? letter = some c ↔ (letter, c) ∈ pairs := by
  constructor
  · intro known
    unfold escaped? at known
    split at known <;> cases known <;> decide
  · intro known
    simp only [pairs, List.mem_cons, List.not_mem_nil, or_false, Prod.mk.injEq] at known
    rcases known with ⟨rfl, rfl⟩ | ⟨rfl, rfl⟩ | ⟨rfl, rfl⟩ | ⟨rfl, rfl⟩ <;> rfl

/-- A symbol is read as its character, whatever is behind it. -/
theorem expand_code (symbol : Symbol) (rest : List Char) :
    expand (symbol.code ++ rest) = (expand rest).map (symbol.meaning :: ·) := by
  cases symbol with
  | plain c ordinary =>
      have no_pair : ∀ letter behind, c = '\\' → rest = letter :: behind → False :=
        fun _ _ slash _ => ordinary slash
      exact (expand.eq_3 c rest no_pair).trans (if_neg ordinary)
  | pair letter c known =>
      refine (expand.eq_2 letter rest).trans ?_
      rw [escaped?_eq_some_iff.2 known]
      rfl

theorem expand_symbols (symbols : List Symbol) :
    expand (symbols.flatMap code) = some (symbols.map meaning) := by
  induction symbols with
  | nil => rfl
  | cons symbol symbols ih =>
      rw [List.flatMap_cons, expand_code, ih]
      rfl

theorem exists_symbols_of_expand {text result : List Char} (read : expand text = some result) :
    ∃ symbols : List Symbol, text = symbols.flatMap code := by
  fun_induction expand text generalizing result with
  | case1 => exact ⟨[], rfl⟩
  | case2 letter rest c known ih =>
      obtain ⟨_, behind, -⟩ := Option.map_eq_some_iff.1 read
      obtain ⟨symbols, rfl⟩ := ih behind
      exact ⟨.pair letter c (escaped?_eq_some_iff.1 known) :: symbols, rfl⟩
  -- The letter behind the backslash is not known, or there is none.
  | case3 => cases read
  | case4 => cases read
  | case5 c rest _ ordinary ih =>
      obtain ⟨_, behind, -⟩ := Option.map_eq_some_iff.1 read
      obtain ⟨symbols, rfl⟩ := ih behind
      exact ⟨.plain c ordinary :: symbols, rfl⟩

/-- What is read is a row of symbols, and the result is what they stand for. -/
theorem expand_eq_some_iff {text result : List Char} :
    expand text = some result ↔
      ∃ symbols : List Symbol, text = symbols.flatMap code ∧ result = symbols.map meaning := by
  constructor
  · intro read
    obtain ⟨symbols, rfl⟩ := exists_symbols_of_expand read
    exact ⟨symbols, rfl, (Option.some.inj ((expand_symbols symbols).symm.trans read)).symm⟩
  · rintro ⟨symbols, rfl, rfl⟩
    exact expand_symbols symbols

/-! ### Backslashes in a row -/

/-- How many backslashes a text ends in. -/
def slashes (text : List Char) : Nat := (text.reverse.takeWhile (· == '\\')).length

/-- Every backslash that starts a pair has a letter behind it.  Of backslashes in a row every other
one starts a pair, so those do that have an even number of them right in front. -/
def Paired (text : List Char) : Prop :=
  ∀ front behind, text = front ++ '\\' :: behind → Even (slashes front) →
    ∃ pair ∈ pairs, behind.head? = some pair.1

/-- A symbol ends in two backslashes or in none. -/
theorem even_slashes_code (symbol : Symbol) : Even (slashes symbol.code) := by
  cases symbol with
  | plain c ordinary =>
      have none : slashes [c] = 0 := by simp [slashes, ordinary]
      exact none ▸ Even.zero
  | pair letter c known =>
      by_cases slash : letter = '\\'
      · subst slash
        exact ⟨1, rfl⟩
      · have none : slashes ['\\', letter] = 0 := by simp [slashes, slash]
        exact none ▸ Even.zero

/-- A symbol in front does not change which backslashes start pairs. -/
theorem even_slashes_append (symbol : Symbol) (front : List Char) :
    Even (slashes (symbol.code ++ front)) ↔ Even (slashes front) := by
  rw [slashes, List.reverse_append, List.takeWhile_append]
  split
  next whole =>
    have row : slashes front = front.reverse.length := whole
    have both : (front.reverse ++ symbol.code.reverse.takeWhile (· == '\\')).length =
        slashes front + slashes symbol.code := by rw [List.length_append, row, slashes]
    rw [both, Nat.even_add]
    exact iff_true_right (even_slashes_code symbol)
  next => rfl

theorem paired_append (symbol : Symbol) (rest : List Char) :
    Paired (symbol.code ++ rest) ↔ Paired rest := by
  constructor
  · rintro paired front behind rfl even
    refine paired (symbol.code ++ front) behind (List.append_assoc _ _ _).symm ?_
    exact (even_slashes_append symbol front).2 even
  · intro paired front behind same even
    have later := fun front => (even_slashes_append symbol front).1
    cases symbol with
    | plain c ordinary =>
        cases front with
        | nil => exact absurd (List.cons.inj same).1 ordinary
        | cons first front =>
            obtain ⟨rfl, others⟩ := List.cons.inj same
            exact paired front behind others (later front even)
    | pair letter c known =>
        rcases front with _ | ⟨first, _ | ⟨second, front⟩⟩
        · obtain ⟨-, rfl⟩ := List.cons.inj same
          exact ⟨(letter, c), known, rfl⟩
        · -- The second half of a pair of backslashes has one of them in front.
          obtain ⟨rfl, -⟩ := List.cons.inj same
          exact absurd even (by decide)
        · obtain ⟨rfl, behind_slash⟩ := List.cons.inj same
          obtain ⟨rfl, others⟩ := List.cons.inj behind_slash
          exact paired front behind others (later front even)

theorem paired_symbols (symbols : List Symbol) : Paired (symbols.flatMap code) := by
  induction symbols with
  | nil =>
      intro front behind same
      exact absurd same.symm (List.append_ne_nil_of_right_ne_nil _ (List.cons_ne_nil _ _))
  | cons symbol symbols ih => exact (paired_append symbol _).2 ih

theorem Paired.first {c : Char} {rest : List Char} (paired : Paired (c :: rest)) :
    ∃ (symbol : Symbol) (behind : List Char), c :: rest = symbol.code ++ behind := by
  by_cases slash : c = '\\'
  · subst slash
    obtain ⟨⟨letter, c⟩, known, next⟩ := paired [] rest rfl Even.zero
    obtain ⟨behind, rfl⟩ := List.head?_eq_some_iff.1 next
    exact ⟨.pair letter c known, behind, rfl⟩
  · exact ⟨.plain c slash, rest, rfl⟩

/-- Cutting off a symbol leaves the pairs of the rest where they were; the rest is cut likewise. -/
theorem exists_symbols_of_paired {text : List Char} (paired : Paired text) :
    ∃ symbols : List Symbol, text = symbols.flatMap code := by
  cases text with
  | nil => exact ⟨[], rfl⟩
  | cons c rest =>
      obtain ⟨symbol, behind, cut⟩ := paired.first
      have shorter : behind.length < (c :: rest).length := by
        have some_code := List.length_pos_iff.2 symbol.code_ne_nil
        rw [cut, List.length_append]
        omega
      rw [cut] at paired
      obtain ⟨symbols, others⟩ := exists_symbols_of_paired ((paired_append symbol behind).1 paired)
      exact ⟨symbol :: symbols, by rw [cut, others, List.flatMap_cons]⟩
termination_by text.length

/-- Rows of symbols are told by their backslashes alone. -/
theorem paired_iff {text : List Char} :
    Paired text ↔ ∃ symbols : List Symbol, text = symbols.flatMap code := by
  constructor
  · exact exists_symbols_of_paired
  · rintro ⟨symbols, rfl⟩
    exact paired_symbols symbols

/-! ### The texts of options -/

/-- A text that is read as a given one: every backslash is written twice. -/
def doubled (text : String) : String :=
  String.ofList (text.toList.flatMap fun c => if c = '\\' then ['\\', '\\'] else [c])

/-- The symbol of a character in a text whose backslashes are doubled. -/
def Symbol.ofChar (c : Char) : Symbol :=
  if slash : c = '\\' then .pair '\\' '\\' (by decide) else .plain c slash

theorem code_ofChar (c : Char) : (ofChar c).code = if c = '\\' then ['\\', '\\'] else [c] := by
  rw [ofChar]
  split <;> rfl

theorem meaning_ofChar (c : Char) : (ofChar c).meaning = c := by
  rw [ofChar]
  split
  next slash => exact slash.symm
  next => rfl

theorem expand_doubled (text : String) : expand (doubled text).toList = some text.toList := by
  have codes : (doubled text).toList = (text.toList.map ofChar).flatMap code := by
    simp only [doubled, String.toList_ofList, List.flatMap_map, code_ofChar]
  have meanings : (text.toList.map ofChar).map meaning = text.toList := by
    simp only [List.map_map, Function.comp_def, meaning_ofChar, List.map_id']
  rw [codes, expand_symbols, meanings]

/-- An option is set to what its text is read as, unless that is nothing. -/
theorem ofOption_eq_ok_iff {name : OptionName} {text separator : String} :
    ofOption name text = .ok separator ↔
      separator ≠ "" ∧ expand text.toList = some separator.toList := by
  rw [ofOption]
  split
  next c rest read =>
    rw [read, Except.ok.injEq]
    constructor
    · rintro rfl
      refine ⟨?_, by rw [String.toList_ofList]⟩
      intro none
      exact absurd (congrArg String.toList none) (by simp)
    · rintro ⟨-, same⟩
      rw [Option.some.inj same, String.ofList_toList]
  next unread =>
    constructor
    · intro set
      cases set
    · rintro ⟨nonempty, read⟩
      obtain ⟨c, rest, shape⟩ := List.exists_cons_of_ne_nil (mt String.toList_eq_nil_iff.1 nonempty)
      exact absurd (read.trans (congrArg some shape)) (unread c rest)

/-- An option is set by the texts that are a row of symbols, other than the empty one. -/
theorem ofOption_iff_symbols {name : OptionName} {text separator : String} :
    ofOption name text = .ok separator ↔
      text ≠ "" ∧ ∃ symbols : List Symbol,
        text.toList = symbols.flatMap code ∧ separator.toList = symbols.map meaning := by
  rw [ofOption_eq_ok_iff, expand_eq_some_iff]
  have nonempty_iff : ∀ symbols : List Symbol, text.toList = symbols.flatMap code →
      separator.toList = symbols.map meaning → (separator ≠ "" ↔ text ≠ "") := by
    intro symbols cut result
    rw [ne_eq, ne_eq, ← String.toList_eq_nil_iff, ← String.toList_eq_nil_iff, cut, result,
      List.map_eq_nil_iff, flatMap_code_eq_nil_iff]
  constructor
  · rintro ⟨nonempty, symbols, cut, result⟩
    exact ⟨(nonempty_iff symbols cut result).1 nonempty, symbols, cut, result⟩
  · rintro ⟨nonempty, symbols, cut, result⟩
    exact ⟨(nonempty_iff symbols cut result).2 nonempty, symbols, cut, result⟩

theorem exists_ofOption_iff {name : OptionName} {text : String} :
    (∃ separator, ofOption name text = .ok separator) ↔ text ≠ "" ∧ Paired text.toList := by
  constructor
  · rintro ⟨separator, set⟩
    obtain ⟨nonempty, symbols, cut, -⟩ := ofOption_iff_symbols.1 set
    exact ⟨nonempty, paired_iff.2 ⟨symbols, cut⟩⟩
  · rintro ⟨nonempty, paired⟩
    obtain ⟨symbols, cut⟩ := paired_iff.1 paired
    refine ⟨String.ofList (symbols.map meaning), ofOption_iff_symbols.2 ?_⟩
    exact ⟨nonempty, symbols, cut, String.toList_ofList⟩

theorem eq_badOption_of_ofOption {name : OptionName} {text : String} {error : ArchiveError}
    (refused : ofOption name text = .error error) : error = .badOption name text := by
  rw [ofOption] at refused
  split at refused
  next => cases refused
  next =>
    cases refused
    rfl

theorem ofOption_doubled (name : OptionName) {separator : String} (nonempty : separator ≠ "") :
    ofOption name (doubled separator) = .ok separator :=
  ofOption_eq_ok_iff.2 ⟨nonempty, expand_doubled separator⟩

end Separator

theorem LineOptions.check_of_differ {options : LineOptions} (columns : options.columnSeparator ≠ "")
    (lines : options.lineSeparator ≠ "")
    (differ : options.lineSeparator ≠ options.columnSeparator) : options.check = .ok () := by
  rw [check, if_neg (mt String.isEmpty_iff.1 columns), if_neg]
  rintro (none | same)
  · exact lines (String.isEmpty_iff.1 none)
  · exact differ same

namespace Settings

variable {settings : Settings}

/-- Settings with other texts for both separators. -/
def withSeparators (settings : Settings) (columns lines : String) : Settings :=
  { settings with
    output :=
      { settings.output with columnSeparator := some columns, lineSeparator := some lines } }

/-- Options of an archive are read field by field. -/
theorem archiveOptions_eq_ok_iff {output : OutputSettings} {config : ArchiveConfig} :
    archiveOptions output = .ok config ↔
      ArchiveFormat.ofName output.format = .ok config.format ∧
        BinaryEncoding.ofName output.binaryEncoding = .ok config.lines.encoding ∧
        separator .columnSeparator (LineOptions.forFormat config.format).columnSeparator
          output.columnSeparator = .ok config.lines.columnSeparator ∧
        separator .lineSeparator (LineOptions.forFormat config.format).lineSeparator
          output.lineSeparator = .ok config.lines.lineSeparator ∧
        output.shards = config.shards ∧ output.append = config.append := by
  constructor
  · intro read
    obtain ⟨format, formatted, behind⟩ := except_bind_ok read
    obtain ⟨encoding, encoded, behind⟩ := except_bind_ok behind
    obtain ⟨columns, divided, behind⟩ := except_bind_ok behind
    obtain ⟨lines, ended, same⟩ := except_bind_ok behind
    cases same
    exact ⟨formatted, encoded, divided, ended, rfl, rfl⟩
  · obtain ⟨format, shards, append, columns, lines, encoding⟩ := config
    rintro ⟨formatted, encoded, divided, ended, rfl, rfl⟩
    dsimp only at formatted encoded divided ended
    simp only [archiveOptions, bind, Except.bind, formatted, encoded, divided, ended]
    rfl

/-- Any two different separators are set by their texts with doubled backslashes, in any settings
that give options of an archive. -/
theorem archiveConfig_doubled {config : ArchiveConfig} {columns lines : String}
    (options : settings.archiveConfig = .ok config) (some_columns : columns ≠ "")
    (some_lines : lines ≠ "") (differ : lines ≠ columns) :
    (settings.withSeparators (Separator.doubled columns) (Separator.doubled lines)).archiveConfig =
      .ok { config with lines := ⟨columns, lines, config.lines.encoding⟩ } := by
  obtain ⟨read, -⟩ := archiveConfig_eq_ok_iff.1 options
  obtain ⟨formatted, encoded, -, -, shards, append⟩ := archiveOptions_eq_ok_iff.1 read
  obtain ⟨-, some_shard⟩ := check_archiveConfig options
  refine archiveConfig_eq_ok_iff.2 ⟨archiveOptions_eq_ok_iff.2 ?_, ?_⟩
  · have divided := Separator.ofOption_doubled .columnSeparator some_columns
    have ended := Separator.ofOption_doubled .lineSeparator some_lines
    exact ⟨formatted, encoded, divided, ended, shards, append⟩
  · rw [ArchiveConfig.check, if_neg (Nat.ne_of_gt some_shard)]
    split
    · exact LineOptions.check_of_differ some_columns some_lines differ
    · rfl

/-- A text sets a separator exactly if it is not empty and every backslash that starts a pair has a
letter behind it.  The separator is what the symbols of the text stand for, and never empty; any
other text is named in the error.  Every separator is set by its text with doubled backslashes, and
so are both separators of an archive in its settings. -/
theorem separators_of_symbols :
    (∀ name text, (∃ separator, Separator.ofOption name text = .ok separator) ↔
        text ≠ "" ∧ Separator.Paired text.toList) ∧
      (∀ name text separator, Separator.ofOption name text = .ok separator ↔
        text ≠ "" ∧ ∃ symbols : List Separator.Symbol,
          text.toList = symbols.flatMap Separator.Symbol.code ∧
            separator.toList = symbols.map Separator.Symbol.meaning) ∧
      (∀ name text separator, Separator.ofOption name text = .ok separator → separator ≠ "") ∧
      (∀ name text error, Separator.ofOption name text = .error error →
        error = .badOption name text) ∧
      (∀ name separator, separator ≠ "" →
        Separator.ofOption name (Separator.doubled separator) = .ok separator) ∧
      ∀ (settings : Settings) config columns lines, settings.archiveConfig = .ok config →
        columns ≠ "" → lines ≠ "" → lines ≠ columns →
          (settings.withSeparators (Separator.doubled columns)
            (Separator.doubled lines)).archiveConfig =
              .ok { config with lines := ⟨columns, lines, config.lines.encoding⟩ } := by
  refine ⟨?_, ?_, ?_, ?_, ?_, ?_⟩
  · intro name text
    exact Separator.exists_ofOption_iff
  · intro name text separator
    exact Separator.ofOption_iff_symbols
  · intro name text separator set
    exact (Separator.ofOption_eq_ok_iff.1 set).1
  · intro name text error refused
    exact Separator.eq_badOption_of_ofOption refused
  · intro name separator nonempty
    exact Separator.ofOption_doubled name nonempty
  · intro settings config columns lines options some_columns some_lines differ
    exact archiveConfig_doubled options some_columns some_lines differ

/-- An escaped backslash in front of a letter and of a pair, three backslashes, and settings with
a backslash between columns and one with a letter behind lines. -/
theorem separators_of_symbols_slashes :
    Separator.ofOption .columnSeparator "\\\\t\\t" = .ok "\\t\t" ∧
      Separator.ofOption .columnSeparator "\\\\t\\t" ≠ .ok "" ∧
      Separator.ofOption .lineSeparator "\\\\\\" =
        .error (.badOption .lineSeparator "\\\\\\") ∧
      Separator.ofOption .lineSeparator (Separator.doubled "\\n") = .ok "\\n" ∧
      ((standard 4).withSeparators (Separator.doubled "\\")
        (Separator.doubled "\\n")).archiveConfig =
          .ok { ArchiveConfig.ofFormat .csv with lines := ⟨"\\", "\\n", .base64⟩ } := by
  obtain ⟨accepted, read, nonempty, refused, set, configured⟩ := separators_of_symbols
  refine ⟨?_, ?_, ?_, ?_, ?_⟩
  · refine (read _ _ _).2 ⟨by decide, ?_⟩
    exact ⟨[.pair '\\' '\\' (by decide), .plain 't' (by decide), .pair 't' '\t' (by decide)],
      rfl, rfl⟩
  · exact fun none => nonempty _ _ _ none rfl
  · cases result : Separator.ofOption .lineSeparator "\\\\\\" with
    | error error => rw [refused _ _ _ result]
    | ok separator =>
        obtain ⟨-, paired⟩ := (accepted _ _).1 ⟨separator, result⟩
        obtain ⟨_, -, letter⟩ := paired ['\\', '\\'] [] rfl (by decide)
        cases letter
  · exact set _ _ (by decide)
  · exact configured (standard 4) (.ofFormat .csv) _ _ rfl (by decide) (by decide) (by decide)

end Settings
end TileBindery
