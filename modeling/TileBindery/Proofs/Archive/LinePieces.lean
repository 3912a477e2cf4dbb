import TileBindery.Proofs.Archive.Readers
import TileBindery.Proofs.Text.Pieces
import TileBindery.Proofs.Text.Utf8Exact

/-!
# Lines are the pieces between separators

The reader of lines looks for the last octet of the separator only, and whether the line ends with
the whole of it.  As it looks whenever this octet comes by, it stops at the first separator, also if
the separator overlaps itself.  The main statement says that its calls give the records of the
pieces of the stream.
-/

namespace TileBindery

namespace ByteSource

variable {stop : UInt8} {source : ByteSource}

theorem through?_eq_none_iff {octets : Bytes} : through? stop octets = none ↔ stop ∉ octets := by
  induction octets with
  | nil => simp [through?]
  | cons octet rest ih =>
      rw [through?, List.mem_cons, not_or, ← ih, eq_comm (a := stop)]
      split
      next same => simp [same]
      next differs => simp [differs]

/-- What is taken up to an octet ends with it, and has it nowhere else. -/
theorem ends_of_through? {octets front behind : Bytes}
    (h : through? stop octets = some (front, behind)) :
    ∃ before, front = before ++ [stop] ∧ stop ∉ before := by
  induction octets generalizing front with
  | nil => simp [through?] at h
  | cons octet rest ih =>
      rw [through?] at h
      split at h
      next same =>
        cases h
        exact ⟨[], by rw [same]; rfl, List.not_mem_nil⟩
      next differs =>
        obtain ⟨⟨others, _⟩, found, parts⟩ := Option.map_eq_some_iff.1 h
        cases parts
        obtain ⟨before, rfl, absent⟩ := ih found
        exact ⟨octet :: before, rfl, by simp [absent, Ne.symm differs]⟩

/-- What is read up to an octet ends with it, or is all that is left of a stream that ends. -/
theorem ends_of_readUntil {octets : Bytes} {rest : ByteSource}
    (h : source.readUntil stop = .ok (octets, rest)) :
    (∃ before, octets = before ++ [stop] ∧ stop ∉ before) ∨
      stop ∉ octets ∧ rest = ⟨[], none⟩ := by
  rw [readUntil] at h
  split at h
  next found =>
    cases h
    exact .inl (ends_of_through? found)
  next absent =>
    split at h
    next => cases h
    next whole =>
      cases h
      exact .inr ⟨through?_eq_none_iff.1 absent, by rw [whole]⟩

theorem broken_of_readUntil {error : DeviceError} (h : source.readUntil stop = .error error) :
    stop ∉ source.octets ∧ source.breakage = some error := by
  rw [readUntil] at h
  split at h
  next => cases h
  next absent =>
    split at h
    next broken =>
      cases h
      exact ⟨through?_eq_none_iff.1 absent, broken⟩
    next => cases h

end ByteSource

namespace Separator

variable {α : Type} {before line : List α} {stop : α}

/-- No separator comes to stand in a line by items other than its last one. -/
theorem not_infix_append (unmet : ¬before ++ [stop] <:+: line) {items : List α}
    (absent : stop ∉ items) : ¬before ++ [stop] <:+: line ++ items := by
  rintro ⟨front, behind, shape⟩
  rcases List.append_eq_append_iff.1 shape with ⟨others, line_eq, -⟩ | ⟨others, split, items_eq⟩
  · exact unmet ⟨front, others, line_eq.symm⟩
  · rcases List.eq_nil_or_concat others with rfl | ⟨others, last, rfl⟩
    · exact unmet ⟨front, [], by rw [split]; simp⟩
    · have last_eq : stop = last := by
        rw [List.concat_eq_append, ← List.append_assoc, ← List.append_assoc] at split
        exact (List.append_singleton_inj.1 split).2
      exact absent (by simp [items_eq, last_eq])

/-- A separator that is met with an item behind a line without one is the first. -/
theorem firstBehind_of_suffix {separator items front : List α} {item : α}
    (unmet : ¬separator <:+: items) (met : items ++ [item] = front ++ separator)
    (behind : List α) :
    FirstBehind separator (items ++ [item] ++ behind) front where
  stands := by
    rw [met]
    exact List.prefix_append _ _
  leftmost other stands := by
    refine Nat.le_of_not_lt fun earlier => ?_
    have lengths := congrArg List.length met
    simp only [List.length_append, List.length_cons, List.length_nil] at lengths
    refine unmet (.trans (List.suffix_append other separator).isInfix (List.IsPrefix.isInfix ?_))
    rw [List.append_assoc] at stands
    refine List.prefix_of_prefix_length_le stands (List.prefix_append _ _) ?_
    rw [List.length_append]
    omega

end Separator

namespace LineStream

variable {options : LineOptions} {before : Bytes} {stop : UInt8}

/-- Behind a line without separator, reading stops at the first one, or at the end of the stream. -/
theorem readLine_eq (line : Bytes) (source : ByteSource) (unmet : ¬before ++ [stop] <:+: line) :
    readLine (before ++ [stop]) stop line source =
      match Separator.cut? (before ++ [stop]) (line ++ source.octets) with
      | some (front, behind) =>
          .ok (front ++ (before ++ [stop]), { source with octets := behind })
      | none =>
          match source.breakage with
          | some error => .error error
          | none => .ok (line ++ source.octets, ⟨[], none⟩) := by
  -- No separator stands in what has been read: only an octet that ends a read completes one.
  fun_induction readLine (before ++ [stop]) stop line source with
  | case1 line source error broken =>
      obtain ⟨absent, breakage⟩ := ByteSource.broken_of_readUntil broken
      rw [Separator.cut?_eq_none_iff.2 (Separator.not_infix_append unmet absent), breakage]
  | case2 line source rest read =>
      obtain ⟨octets_eq, breakage_eq⟩ := ByteSource.octets_of_readUntil read
      rcases ByteSource.ends_of_readUntil read with ⟨_, nonempty, -⟩ | ⟨-, rfl⟩
      · simp at nonempty
      · rw [octets_eq, ← breakage_eq]
        simp [Separator.cut?_eq_none_iff.2 unmet]
  | case3 line source octet octets rest read _ longer met =>
      obtain ⟨octets_eq, breakage_eq⟩ := ByteSource.octets_of_readUntil read
      obtain ⟨front, front_eq⟩ := List.isSuffixOf_iff_suffix.1 met
      rcases ByteSource.ends_of_readUntil read with ⟨others, ends, absent⟩ | ⟨absent, -⟩
      · have shape : longer = line ++ others ++ [stop] := by
          rw [List.append_assoc, ← ends]
        have first := Separator.firstBehind_of_suffix
          (Separator.not_infix_append unmet absent) (shape.symm.trans front_eq.symm) rest.octets
        rw [← shape] at first
        have cut : Separator.cut? (before ++ [stop]) (line ++ source.octets) =
            some (front, rest.octets) := by
          rw [octets_eq, ← List.append_assoc, Separator.cut?_eq_some_iff, ← List.append_assoc,
            front_eq]
          exact ⟨rfl, first⟩
        rw [cut, ← breakage_eq, ← front_eq]
      · exact absurd ⟨front, [], by rw [List.append_nil, front_eq]⟩
          (Separator.not_infix_append unmet absent)
  | case4 line source octet octets rest read _ longer met ih =>
      obtain ⟨octets_eq, breakage_eq⟩ := ByteSource.octets_of_readUntil read
      have still : ¬before ++ [stop] <:+: longer := by
        rcases ByteSource.ends_of_readUntil read with ⟨others, ends, absent⟩ | ⟨absent, -⟩
        · have shape : longer = line ++ others ++ [stop] := by
            rw [List.append_assoc, ← ends]
          rw [List.isSuffixOf_iff_suffix] at met
          rw [shape, List.infix_concat_iff, ← shape, not_or]
          exact ⟨met, Separator.not_infix_append unmet absent⟩
        · exact Separator.not_infix_append unmet absent
      rw [ih still, octets_eq, List.append_assoc, ← breakage_eq]

/-- Going on from one octet of the separator to the next cuts the same line out of the stream. -/
theorem read_eq (options : LineOptions) (source : ByteSource) :
    read options source =
      match next (Utf8.encode options.lineSeparator.toList) source with
      | .ended => .ended
      | .failed error => .failed error
      | .line line rest =>
          match record options line with
          | .error error => .failed error
          | .ok found => .item found rest := by
  rw [read, next]
  rcases List.eq_nil_or_concat (Utf8.encode options.lineSeparator.toList) with
    separator_eq | ⟨before, stop, separator_eq⟩
  · rw [separator_eq]
    rfl
  · rw [List.concat_eq_append] at separator_eq
    have start : ¬before ++ [stop] <:+: [] := by simp
    simp only [separator_eq, List.getLast?_concat, readLine_eq [] source start, List.nil_append]
    cases cut : Separator.cut? (before ++ [stop]) source.octets with
    | some pair =>
        obtain ⟨front, behind⟩ := pair
        cases taken : record options front <;> simp [taken]
    | none =>
        have unended : ¬(before ++ [stop]).isSuffixOf source.octets := fun ends =>
          Separator.cut?_eq_none_iff.1 cut (List.isSuffixOf_iff_suffix.1 ends).isInfix
        cases breakage : source.breakage with
        | some error => simp
        | none =>
            by_cases nothing : source.octets = []
            · simp [nothing]
            · cases taken : record options source.octets <;> simp [nothing, unended, taken]

/-- A reader of lines hands out the items of its stream. -/
theorem yields_items (options : LineOptions) (source : ByteSource) :
    StreamReader.Yields (read options) source (items options source) := by
  fun_induction items options source with
  | case1 source ended => exact .ended (by rw [read_eq, ended])
  | case2 source error failed => exact .failed (by rw [read_eq, failed])
  | case3 source line rest cut _ error refused =>
      refine .failed ?_
      rw [read_eq, cut]
      simp only [refused]
  | case4 source line rest cut _ found taken ih =>
      refine .item ?_ ih
      rw [read_eq, cut]
      simp only [taken]

/-! ### The pieces of a stream -/

/-- Results up to the first error, this one included. -/
def upToError {ε α : Type} : List (Except ε α) → List (Except ε α)
  | [] => []
  | .error error :: _ => [.error error]
  | .ok value :: rest => .ok value :: upToError rest

/-- What stands behind the last separator: a line that is not ended, unless the stream ends at the
separator, or the error that the stream breaks with. -/
def lastResult (options : LineOptions) (rest : Bytes) :
    Option DeviceError → List (Except ArchiveError LineRecord)
  | some error => [.error (.device error)]
  | none => if rest.isEmpty then [] else [record options rest]

theorem items_eq (options : LineOptions) (source : ByteSource) :
    items options source =
      match next (Utf8.encode options.lineSeparator.toList) source with
      | .ended => []
      | .failed error => [.error error]
      | .line line rest =>
          match record options line with
          | .error error => [.error error]
          | .ok found => .ok found :: items options rest := by
  rw [items]
  split
  next ended => simp only [ended]
  next failed => simp only [failed]
  next line _ cut =>
    cases taken : record options line <;> simp only [cut, taken]

/-- The items of a stream are the records of its pieces, up to the first error. -/
theorem items_of_pieces {octets rest : Bytes} {pieces : List Bytes}
    (present : Utf8.encode options.lineSeparator.toList ≠ [])
    (cut : Separator.Pieces (Utf8.encode options.lineSeparator.toList) octets pieces rest)
    (breakage : Option DeviceError) :
    items options ⟨octets, breakage⟩ =
      upToError (pieces.map (record options) ++ lastResult options rest breakage) := by
  induction cut with
  | @rest octets unmet =>
      have absent := Separator.cut?_eq_none_iff.2 unmet
      have nothing : items options ⟨[], none⟩ = [] := by
        have absent := Separator.cut?_eq_none_iff.2 (mt List.infix_nil.1 present)
        simp [items_eq, next, present, absent]
      rw [items_eq, next, if_neg (by simpa using present), absent]
      cases breakage with
      | some error => rfl
      | none =>
          by_cases ended : octets = []
          · simp [ended, lastResult, upToError]
          · cases taken : record options octets <;>
              simp [ended, taken, lastResult, upToError, nothing]
  | @piece front behind rest pieces first _ ih =>
      have found := Separator.cut?_eq_some_iff.2 ⟨rfl, first⟩
      rw [items_eq, next, if_neg (by simpa using present), found]
      cases taken : record options front <;> simp [taken, upToError, ih]

/-- A text whose octets are a piece does not end with the separator. -/
theorem dropEnding_of_not_infix {ending text : List Char} {piece : Bytes}
    (unmet : ¬Utf8.encode ending <:+: piece) (read : Utf8.decode piece = .ok text) :
    Line.dropEnding ending text = text := by
  rw [Line.dropEnding, if_neg]
  intro ends
  obtain ⟨front, rfl⟩ := List.isSuffixOf_iff_suffix.1 ends
  refine unmet ⟨Utf8.encode front, [], ?_⟩
  rw [List.append_nil, ← Utf8.encode_append, Utf8.encode_of_decode read]

/-- The calls of a reader of lines give the records of the pieces between separators, in order and
up to the first piece that is no text or no tile, then nothing.  The pieces are told by the stream,
and none of them loses a second separator when it is parsed. -/
theorem calls_give_records_of_pieces (present : options.lineSeparator ≠ "") (source : ByteSource) :
    ∃ pieces rest,
      Separator.Pieces (Utf8.encode options.lineSeparator.toList) source.octets pieces rest ∧
      (∀ others left,
        Separator.Pieces (Utf8.encode options.lineSeparator.toList) source.octets others left →
          others = pieces ∧ left = rest) ∧
      (∀ count, (StreamReader.start source).calls (read options) count =
        (List.range count).map fun index =>
          (upToError
            (pieces.map (record options) ++ lastResult options rest source.breakage))[index]?) ∧
      ∀ piece ∈ pieces ++ [rest], ∀ text, Utf8.decode piece = .ok text →
        Line.dropEnding options.lineSeparator.toList text = text := by
  have nonempty : Utf8.encode options.lineSeparator.toList ≠ [] := by
    obtain ⟨first, others, separator_eq⟩ :=
      List.exists_cons_of_ne_nil (mt String.toList_eq_nil_iff.1 present)
    rw [separator_eq]
    exact Utf8.encode_cons_ne_nil first others
  obtain ⟨pieces, rest, cut⟩ := Separator.exists_pieces nonempty source.octets
  refine ⟨pieces, rest, cut, fun others left => cut.unique, fun count => ?_,
    fun piece member text => dropEnding_of_not_infix (cut.not_infix nonempty piece member)⟩
  rw [StreamReader.calls_of_yields (yields_items options source),
    ← items_of_pieces nonempty cut source.breakage]

/-- Lines with a line separator that overlaps itself and the column separator. -/
def barOptions : LineOptions := ⟨"|", "||", .hex⟩

def barLines : List (List Char) := ["1|0|1|aa".toList, "0|0|0|bb".toList]

def barRest : List Char := "|1".toList

def barOctets : Bytes :=
  Utf8.encode (barLines.flatMap (· ++ barOptions.lineSeparator.toList) ++ barRest)

theorem pieces_barOctets :
    Separator.Pieces (Utf8.encode barOptions.lineSeparator.toList) barOctets
      (barLines.map Utf8.encode) (Utf8.encode barRest) :=
  .of_cut? rfl (.of_cut? rfl (.rest (Separator.cut?_eq_none_iff.1 rfl)))

theorem calls_give_records_of_pieces_barOctets :
    barOptions.lineSeparator ≠ "" ∧
      (StreamReader.start (.ofBytes barOctets)).calls (read barOptions) 5 =
        [some (.ok ⟨⟨1, 1, 0⟩, some [0xAA]⟩), some (.ok ⟨⟨0, 0, 0⟩, some [0xBB]⟩),
          some (.error (.decode (.badColumn .x []))), none, none] := by
  have present : barOptions.lineSeparator ≠ "" := by decide
  obtain ⟨pieces, rest, -, unique, calls, -⟩ :=
    calls_give_records_of_pieces present (.ofBytes barOctets)
  obtain ⟨rfl, rfl⟩ := unique _ _ pieces_barOctets
  have record_eq (text : List Char) :
      record barOptions (Utf8.encode text) = (Line.parse barOptions text).mapError .decode := by
    rw [record, Utf8.decode_encode]
  have results : upToError ((barLines.map Utf8.encode).map (record barOptions) ++
      lastResult barOptions (Utf8.encode barRest) none) = [.ok ⟨⟨1, 1, 0⟩, some [0xAA]⟩,
        .ok ⟨⟨0, 0, 0⟩, some [0xBB]⟩, .error (.decode (.badColumn .x []))] := by
    have last : lastResult barOptions (Utf8.encode barRest) none =
        [record barOptions (Utf8.encode barRest)] := rfl
    rw [last, List.map_map, Function.comp_def]
    simp only [record_eq]
    rfl
  exact ⟨present, (calls 5).trans (congrArg
    (fun results => (List.range 5).map fun index => results[index]?) results)⟩

end LineStream
end TileBindery
