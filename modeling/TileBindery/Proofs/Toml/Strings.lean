import TileBindery.Toml.Reader
import TileBindery.Toml.Writer

/-!
# Strings in TOML are read as they are written

A string is written in one of four forms.  Each of them is read up to its own end, whatever stands
behind it, as long as no further quote does.  On several lines up to two quotes may stand in a row,
also in front of the three that end the string: there the reader finds three quotes too early, and
takes those behind them for the string.
-/

namespace TileBindery
namespace TomlReader

/-! ### Characters and escapes -/

theorem isPlain_of_not_isControl {c : Char} (visible : TomlWriter.isControl c = false)
    (line : c ≠ '\n') : isPlain c := by
  simp only [TomlWriter.isControl, Bool.or_eq_false_iff, Bool.and_eq_false_iff, ne_eq,
    decide_eq_false_iff_not, decide_not, Bool.not_eq_false', decide_eq_true_eq] at visible
  simp only [isPlain, Bool.or_eq_true, decide_eq_true_eq, Bool.and_eq_true]
  rcases visible with ⟨(high | tab) | same, delete⟩
  · exact .inr ⟨Nat.not_lt.1 high, by simpa using delete⟩
  · exact .inl tab
  · exact absurd same line

/-- A character that is found next stands behind those found before it. -/
theorem found_append (c : Char) (found text : List Char) :
    (c :: found).reverse ++ text = found.reverse ++ c :: text := by
  rw [List.reverse_cons, List.append_assoc, List.singleton_append]

theorem hexValue?_hexDigit : ∀ n < 16, hexValue? (TomlWriter.hexDigit n) = some n := by decide

/-- A control character is read from its number. -/
theorem escape_number {c : Char} (control : TomlWriter.isControl c) (rest : List Char) :
    escape ('u' :: '0' :: '0' :: TomlWriter.hexDigit (c.toNat / 16) ::
      TomlWriter.hexDigit (c.toNat % 16) :: rest) = some (c, rest) := by
  have small : c.toNat < 128 := by
    simp only [TomlWriter.isControl, Bool.or_eq_true, Bool.and_eq_true, decide_eq_true_eq]
      at control
    omega
  have digits : ['0', '0', TomlWriter.hexDigit (c.toNat / 16),
      TomlWriter.hexDigit (c.toNat % 16)].mapM hexValue? =
        some [0, 0, c.toNat / 16, c.toNat % 16] := by
    have zero : hexValue? '0' = some 0 := rfl
    simp only [List.mapM_cons, List.mapM_nil, zero, hexValue?_hexDigit (c.toNat / 16) (by omega),
      hexValue?_hexDigit (c.toNat % 16) (by omega), Option.bind_eq_bind, Option.bind_some,
      Option.pure_def]
  have number : ((0 * 16 + 0) * 16 + c.toNat / 16) * 16 + c.toNat % 16 = c.toNat := by omega
  change numbered 4 ('0' :: '0' :: _ :: _ :: rest) = _
  unfold numbered
  simp only [List.take_succ_cons, List.take_zero, List.length_cons, List.length_nil, digits,
    List.foldl_cons, List.foldl_nil, number, Option.bind_eq_bind, Option.bind_some]
  rw [if_neg (by decide), if_pos (show c.toNat.isValidChar from c.valid), Char.ofNat_toNat]
  rfl

/-- What stands between double quotes for a character: the character itself, or an escape. -/
inductive Stands : List Char → Char → Prop where
  | plain {c : Char} (plain : isPlain c) (quote : c ≠ '"') (slash : c ≠ '\\') : Stands [c] c
  | escaped {code : List Char} {c : Char} (reads : ∀ rest, escape (code ++ rest) = some (c, rest)) :
      Stands ('\\' :: code) c

theorem stands_escape {c : Char} (quote : c ≠ '"') (line : c ≠ '\n') :
    Stands (TomlWriter.escape c) c := by
  by_cases named : c ∈ ['\\', '\t', '\x08', '\x0c', '\r']
  · simp only [List.mem_cons, List.not_mem_nil, or_false] at named
    rcases named with rfl | rfl | rfl | rfl | rfl <;> exact .escaped fun _ => rfl
  · simp only [List.mem_cons, List.not_mem_nil, or_false, not_or] at named
    obtain ⟨slash, tab, back, feed, carriage⟩ := named
    rw [TomlWriter.escape, if_neg slash, if_neg tab, if_neg back, if_neg feed, if_neg carriage]
    split
    next control => exact .escaped (escape_number control)
    next visible =>
      exact .plain (isPlain_of_not_isControl (Bool.eq_false_iff.2 visible) line) quote slash

theorem stands_escapeInLine (c : Char) : Stands (TomlWriter.escapeInLine c) c := by
  rw [TomlWriter.escapeInLine]
  split
  next quote =>
    subst quote
    exact .escaped fun _ => rfl
  next quote =>
    split
    next line =>
      subst line
      exact .escaped fun _ => rfl
    next line => exact stands_escape quote line

/-- No quote and no line break stands in front of what stands for a character. -/
theorem Stands.front {code : List Char} {c : Char} (stands : Stands code c) :
    ∃ first others, code = first :: others ∧ first ≠ '"' ∧ first ≠ '\n' ∧ first ≠ '\r' := by
  cases stands with
  | plain plain quote slash =>
      refine ⟨c, [], rfl, quote, ?_, ?_⟩ <;> rintro rfl <;> cases plain
  | @escaped code _ reads => exact ⟨'\\', code, rfl, by decide, by decide, by decide⟩

/-! ### On one line -/

theorem quotedFrom_stands {code : List Char} {c : Char} (stands : Stands code c)
    (found rest : List Char) : quotedFrom found (code ++ rest) = quotedFrom (c :: found) rest := by
  cases stands with
  | plain plain quote slash =>
      rw [List.singleton_append, quotedFrom, if_neg quote, if_neg slash, if_pos plain]
  | escaped reads =>
      rw [List.cons_append, quotedFrom, if_neg (by decide), if_pos rfl]
      split
      next none =>
        rw [reads] at none
        cases none
      next taken =>
        rw [reads] at taken
        cases taken
        rfl

theorem quotedFrom_text (found text rest : List Char) :
    quotedFrom found (text.flatMap TomlWriter.escapeInLine ++ '"' :: rest) =
      some (found.reverse ++ text, rest) := by
  induction text generalizing found with
  | nil => rw [List.flatMap_nil, List.nil_append, quotedFrom, if_pos rfl, List.append_nil]
  | cons c text induction =>
      rw [List.flatMap_cons, List.append_assoc, quotedFrom_stands (stands_escapeInLine c),
        induction, found_append]

theorem literalFrom_text {text : List Char} (plain : ∀ c ∈ text, isPlain c)
    (quote : '\'' ∉ text) (found rest : List Char) :
    literalFrom found (text ++ '\'' :: rest) = some (found.reverse ++ text, rest) := by
  induction text generalizing found with
  | nil => rw [List.nil_append, literalFrom, if_pos rfl, List.append_nil]
  | cons c text induction =>
      rw [List.mem_cons, not_or] at quote
      have behind := induction (fun other member => plain other (List.mem_cons_of_mem c member))
        quote.2 (c :: found)
      rw [List.cons_append, literalFrom, if_neg (Ne.symm quote.1),
        if_pos (plain c List.mem_cons_self), behind, found_append]

/-! ### On several lines -/

/-- Something else than a quote stands in front, or nothing at all. -/
def Apart (quote : Char) (rest : List Char) : Prop := ∀ c ∈ rest.head?, c ≠ quote

theorem apart_cons {quote c : Char} (other : c ≠ quote) (rest : List Char) :
    Apart quote (c :: rest) := by
  rintro _ ⟨⟩
  exact other

theorem Apart.not_in_front {quote : Char} {text : List Char} (apart : Apart quote text)
    (others : List Char) : ¬quote :: others <+: text := by
  rintro ⟨behind, rfl⟩
  exact apart quote rfl rfl

/-- Of the quotes behind the three that are found first, up to two belong to the string. -/
theorem closed_eq {quote : Char} {text more rest : List Char}
    (taken : closing quote text = (more, rest)) (found : List Char) :
    closed quote found text = (found.reverse ++ more, rest) := by
  rw [closed, taken]

theorem closed_of_apart {quote : Char} {rest : List Char} (apart : Apart quote rest)
    (found : List Char) : closed quote found rest = (found.reverse, rest) := by
  have none : closing quote rest = ([], rest) := by
    match rest, apart with
    | [], _ => rfl
    | [c], apart => exact if_neg (apart c rfl)
    | c :: _ :: _, apart => exact if_neg (apart c rfl)
  rw [closed_eq none, List.append_nil]

theorem closed_single {quote : Char} {rest : List Char} (apart : Apart quote rest)
    (found : List Char) : closed quote found (quote :: rest) = (found.reverse ++ [quote], rest) := by
  apply closed_eq
  match rest, apart with
  | [], _ => exact if_pos rfl
  | c :: _, apart => exact (if_pos rfl).trans (if_neg (apart c rfl))

theorem closed_double (quote : Char) (rest found : List Char) :
    closed quote found (quote :: quote :: rest) = (found.reverse ++ [quote, quote], rest) := by
  apply closed_eq
  exact (if_pos rfl).trans (if_pos rfl)

/-- What every reader of strings of several lines does with quotes: three of them end the string,
and one with fewer behind it belongs to it. -/
structure ReadsLines (quote : Char) (read : List Char → List Char → Taken) : Prop where
  ends : ∀ found rest, read found (quote :: quote :: quote :: rest) = some (closed quote found rest)
  alone : ∀ found text, ¬[quote, quote] <+: text →
    read found (quote :: text) = read (quote :: found) text

namespace ReadsLines

variable {quote : Char} {read : List Char → List Char → Taken}

/-- The end of the string. -/
theorem finish (reads : ReadsLines quote read) {rest : List Char} (apart : Apart quote rest)
    (found : List Char) :
    read found (quote :: quote :: quote :: rest) = some (found.reverse, rest) := by
  rw [reads.ends, closed_of_apart apart]

/-- A quote with at most one behind it in the string is a character of the string, whether the
reader finds the end before it or behind it. -/
theorem quote_append (reads : ReadsLines quote read) {written : List Char}
    (alone : ¬[quote, quote] <+: written) {rest : List Char} (apart : Apart quote rest)
    (found : List Char) :
    read found (quote :: (written ++ quote :: quote :: quote :: rest)) =
      read (quote :: found) (written ++ quote :: quote :: quote :: rest) := by
  match written, alone with
  -- at the end of the string the reader stops one quote early, or two
  | [], _ =>
      rw [List.nil_append, reads.ends, closed_single apart, reads.finish apart, List.reverse_cons]
  | [c], _ =>
      by_cases same : c = quote
      · subst same
        rw [List.singleton_append, reads.ends, reads.ends, closed_double, closed_single apart,
          found_append]
      · refine reads.alone found _ ?_
        intro pair
        exact same (List.cons_prefix_cons.1 pair).1.symm
  | c :: d :: more, alone =>
      refine reads.alone found _ ?_
      intro pair
      obtain ⟨first, behind⟩ := List.cons_prefix_cons.1 pair
      obtain ⟨second, -⟩ := List.cons_prefix_cons.1 behind
      rw [← first, ← second] at alone
      exact alone (List.prefix_append [quote, quote] more)

end ReadsLines

theorem readsLines_quoted : ReadsLines '"' quotedLinesFrom where
  ends := quotedLinesFrom.eq_2
  alone := by
    intro found text alone
    rw [quotedLinesFrom.eq_6, if_pos (by decide)]
    · rintro behind - rfl
      exact alone (List.prefix_append ['"', '"'] behind)
    · decide
    · exact fun _ same => absurd same (by decide)
    · decide

theorem readsLines_literal : ReadsLines '\'' literalLinesFrom where
  ends := literalLinesFrom.eq_2
  alone := by
    intro found text alone
    rw [literalLinesFrom.eq_5, if_pos (by decide)]
    · rintro behind - rfl
      exact alone (List.prefix_append ['\'', '\''] behind)
    · decide
    · exact fun _ same => absurd same (by decide)

theorem quotedLinesFrom_stands {code : List Char} {c : Char} (stands : Stands code c)
    (found rest : List Char) :
    quotedLinesFrom found (code ++ rest) = quotedLinesFrom (c :: found) rest := by
  cases stands with
  | plain plain quote slash =>
      rw [List.singleton_append, quotedLinesFrom.eq_6, if_pos plain]
      · exact fun _ same => absurd same quote
      · rintro rfl
        cases plain
      · rintro _ rfl
        cases plain
      · exact slash
  | escaped reads =>
      rw [List.cons_append, quotedLinesFrom.eq_5]
      split
      next taken =>
        rw [reads] at taken
        cases taken
        rfl
      next none =>
        rw [reads] at none
        cases none

theorem apart_escape {c : Char} (quote : c ≠ '"') (rest : List Char) :
    Apart '"' (TomlWriter.escape c ++ rest) := by
  by_cases line : c = '\n'
  · subst line
    exact apart_cons quote rest
  · obtain ⟨first, others, shape, other, -⟩ := (stands_escape quote line).front
    rw [shape]
    exact apart_cons other _

/-- Behind two quotes none is written without an escape. -/
theorem apart_escapeLines {count : Nat} (many : 2 ≤ count) (text : List Char) :
    Apart '"' (TomlWriter.escapeLines count text) := by
  cases text with
  | nil => exact nofun
  | cons c text =>
      rw [TomlWriter.escapeLines]
      split
      next =>
        rw [if_neg (Nat.not_lt.2 many)]
        exact apart_cons (by decide) _
      next quote => exact apart_escape quote _

/-- Behind a quote no two are written without an escape. -/
theorem not_pair_escapeLines {count : Nat} (some_quote : 1 ≤ count) (text : List Char) :
    ¬['"', '"'] <+: TomlWriter.escapeLines count text := by
  cases text with
  | nil => exact fun pair => nomatch List.prefix_nil.1 pair
  | cons c text =>
      rw [TomlWriter.escapeLines]
      split
      next =>
        split
        next =>
          intro pair
          have behind := apart_escapeLines (Nat.succ_le_succ some_quote) text
          exact behind.not_in_front [] (List.cons_prefix_cons.1 pair).2
        next => exact (apart_cons (by decide) _).not_in_front _
      next quote => exact (apart_escape quote _).not_in_front _

theorem quotedLinesFrom_text {rest : List Char} (apart : Apart '"' rest) (count : Nat)
    (found text : List Char) :
    quotedLinesFrom found (TomlWriter.escapeLines count text ++ '"' :: '"' :: '"' :: rest) =
      some (found.reverse ++ text, rest) := by
  induction text generalizing count found with
  | nil =>
      rw [TomlWriter.escapeLines, List.nil_append, readsLines_quoted.finish apart, List.append_nil]
  | cons c text induction =>
      rw [← found_append, TomlWriter.escapeLines]
      split
      next quote =>
        subst quote
        split
        · have alone := not_pair_escapeLines (Nat.le_add_left 1 count) text
          rw [List.cons_append, readsLines_quoted.quote_append alone apart, induction]
        · have escaped : Stands ['\\', '"'] '"' := .escaped fun _ => rfl
          exact (quotedLinesFrom_stands escaped found _).trans (induction 0 _)
      next quote =>
        rw [List.append_assoc]
        by_cases line : c = '\n'
        · subst line
          exact (quotedLinesFrom.eq_3 found _).trans (induction 0 _)
        · rw [quotedLinesFrom_stands (stands_escape quote line), induction]

theorem hasTriple_tail {quote c : Char} {text : List Char}
    (rare : TomlWriter.hasTriple quote (c :: text) = false) :
    TomlWriter.hasTriple quote text = false := by
  match text, rare with
  | [], _ => rfl
  | [_], _ => rfl
  | _ :: _ :: _, rare => exact (Bool.or_eq_false_iff.1 rare).2

theorem not_pair_of_not_hasTriple {quote : Char} {text : List Char}
    (rare : TomlWriter.hasTriple quote (quote :: text) = false) : ¬[quote, quote] <+: text := by
  rintro ⟨behind, rfl⟩
  simp [TomlWriter.hasTriple] at rare

theorem literalLinesFrom_text {rest : List Char} (apart : Apart '\'' rest) (found : List Char)
    {text : List Char} (visible : ∀ c ∈ text, TomlWriter.isControl c = false)
    (rare : TomlWriter.hasTriple '\'' text = false) :
    literalLinesFrom found (text ++ '\'' :: '\'' :: '\'' :: rest) =
      some (found.reverse ++ text, rest) := by
  induction text generalizing found with
  | nil => rw [List.nil_append, readsLines_literal.finish apart, List.append_nil]
  | cons c text induction =>
      have behind := induction (c :: found)
        (fun other member => visible other (List.mem_cons_of_mem c member)) (hasTriple_tail rare)
      rw [← found_append, ← behind, List.cons_append]
      by_cases quote : c = '\''
      · subst quote
        exact readsLines_literal.quote_append (not_pair_of_not_hasTriple rare) apart found
      · by_cases line : c = '\n'
        · subst line
          exact literalLinesFrom.eq_3 found _
        · have plain := isPlain_of_not_isControl (visible c List.mem_cons_self) line
          rw [literalLinesFrom.eq_5, if_pos plain]
          · exact fun _ same => absurd same quote
          · exact line
          · rintro _ rfl
            cases plain

/-! ### Every form -/

/-- The line break that is written in front of a string with line breaks is dropped. -/
theorem skipBreak_openingBreak {text written : List Char}
    (front : '\n' ∉ text → ∀ c ∈ written.head?, c ≠ '\n' ∧ c ≠ '\r') :
    skipBreak (TomlWriter.openingBreak text ++ written) = written := by
  rw [TomlWriter.openingBreak]
  split
  next => rfl
  next absent =>
    have other := front (by simpa using absent)
    rw [List.nil_append, skipBreak, lineBreak.eq_3, Option.getD_none]
    · rintro rest rfl
      exact (other '\n' rfl).1 rfl
    · rintro rest rfl
      exact (other '\r' rfl).2 rfl

theorem isControl_of_not_any {text : List Char} (visible : ¬text.any TomlWriter.isControl) :
    ∀ c ∈ text, TomlWriter.isControl c = false := by
  simpa using visible

/-- A string between single quotes needs no escapes. -/
theorem plain_of_literal {text : List Char} (form : TomlWriter.formOf text = .literal) :
    (∀ c ∈ text, isPlain c) ∧ '\'' ∉ text := by
  unfold TomlWriter.formOf at form
  dsimp only at form
  split at form
  next => cases form
  next =>
    split at form
    next bare =>
      obtain ⟨visible, line, quote⟩ := bare
      refine ⟨?_, by simpa using quote⟩
      intro c member
      refine isPlain_of_not_isControl (isControl_of_not_any visible c member) ?_
      rintro rfl
      exact line (List.contains_iff_mem.2 member)
    next => grind

/-- A string between three single quotes needs no escapes either. -/
theorem rare_of_literalLines {text : List Char} (form : TomlWriter.formOf text = .literalLines) :
    (∀ c ∈ text, TomlWriter.isControl c = false) ∧ TomlWriter.hasTriple '\'' text = false := by
  unfold TomlWriter.formOf at form
  dsimp only at form
  split at form
  next => cases form
  next => grind

theorem string_quoted (text : List Char) {rest : List Char} (double : Apart '"' rest) :
    string ('"' :: text.flatMap TomlWriter.escapeInLine ++ '"' :: rest) = some (text, rest) := by
  rw [List.cons_append, string.eq_3, quoted, quotedFrom_text, List.reverse_nil, List.nil_append]
  intro behind shape
  cases text with
  | nil => exact double '"' (by rw [(List.cons.inj shape).2]; rfl) rfl
  | cons c text =>
      obtain ⟨first, others, front, other, -⟩ := (stands_escapeInLine c).front
      rw [List.flatMap_cons, front] at shape
      exact other (List.cons.inj shape).1

theorem string_literal {text : List Char} (plain : ∀ c ∈ text, isPlain c) (quote : '\'' ∉ text)
    {rest : List Char} (single : Apart '\'' rest) :
    string ('\'' :: text ++ '\'' :: rest) = some (text, rest) := by
  rw [List.cons_append, string.eq_4, literal, literalFrom_text plain quote, List.reverse_nil,
    List.nil_append]
  intro behind shape
  cases text with
  | nil => exact single '\'' (by rw [(List.cons.inj shape).2]; rfl) rfl
  | cons c text =>
      rw [(List.cons.inj shape).1] at quote
      exact quote List.mem_cons_self

theorem string_quotedLines (text : List Char) {rest : List Char} (double : Apart '"' rest) :
    string ('"' :: '"' :: '"' :: (TomlWriter.openingBreak text ++
      (TomlWriter.escapeLines 0 text ++ '"' :: '"' :: '"' :: rest))) = some (text, rest) := by
  rw [string.eq_1, skipBreak_openingBreak, quotedLinesFrom_text double, List.reverse_nil,
    List.nil_append]
  intro absent first is_first
  cases text with
  | nil =>
      cases is_first
      decide
  | cons c text =>
      rw [List.mem_cons, not_or] at absent
      rw [TomlWriter.escapeLines] at is_first
      split at is_first
      next =>
        cases is_first
        decide
      next quote =>
        obtain ⟨d, others, front, -, line, carriage⟩ :=
          (stands_escape quote (Ne.symm absent.1)).front
        rw [front] at is_first
        cases is_first
        exact ⟨line, carriage⟩

theorem string_literalLines {text : List Char}
    (visible : ∀ c ∈ text, TomlWriter.isControl c = false)
    (rare : TomlWriter.hasTriple '\'' text = false) {rest : List Char} (single : Apart '\'' rest) :
    string ('\'' :: '\'' :: '\'' :: (TomlWriter.openingBreak text ++
      (text ++ '\'' :: '\'' :: '\'' :: rest))) = some (text, rest) := by
  rw [string.eq_2, skipBreak_openingBreak, literalLinesFrom_text single [] visible rare,
    List.reverse_nil, List.nil_append]
  intro absent first is_first
  cases text with
  | nil =>
      cases is_first
      decide
  | cons c text =>
      obtain rfl : c = first := Option.some.inj is_first
      have line : c ≠ '\n' := fun same => absent (same ▸ List.mem_cons_self)
      have plain := isPlain_of_not_isControl (visible c List.mem_cons_self) line
      refine ⟨line, ?_⟩
      rintro rfl
      cases plain

/-- A string is read as it is written. -/
theorem string_append (value : String) {rest : List Char} (double : Apart '"' rest)
    (single : Apart '\'' rest) :
    string (TomlWriter.string value ++ rest) = some (value.toList, rest) := by
  rw [TomlWriter.string]
  split
  next =>
    rw [List.append_assoc]
    exact string_quoted value.toList double
  next form =>
    obtain ⟨plain, quote⟩ := plain_of_literal form
    rw [List.append_assoc]
    exact string_literal plain quote single
  next =>
    rw [List.append_assoc, List.append_assoc, List.append_assoc]
    exact string_quotedLines value.toList double
  next form =>
    obtain ⟨visible, rare⟩ := rare_of_literalLines form
    rw [List.append_assoc, List.append_assoc, List.append_assoc]
    exact string_literalLines visible rare single

end TomlReader
end TileBindery
