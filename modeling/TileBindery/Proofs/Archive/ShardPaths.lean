import TileBindery.Archive.Routing
import TileBindery.Proofs.Disk.Paths

/-!
# Where shards go

The paths of the shards of an archive lead to different places, whatever the archive's path is: the
number behind a path changes its last name, or is a name of its own behind a slash.
-/

namespace TileBindery

namespace Path

/-- What is put behind a text without a slash goes to its last piece. -/
theorem pieces_append (text : List Char) :
    ∃ front last, pieces text = front ++ [last] ∧
      ∀ tail : List Char, '/' ∉ tail → pieces (text ++ tail) = front ++ [last ++ tail] := by
  induction text with
  | nil => exact ⟨[], [], rfl, fun tail noSlash => pieces_of_noSlash noSlash⟩
  | cons c rest ih =>
      obtain ⟨front, last, shape, behind⟩ := ih
      by_cases slash : c = '/'
      · refine ⟨[] :: front, last, ?_, fun tail noSlash => ?_⟩
        · rw [pieces, if_pos slash, shape, List.cons_append]
        · rw [List.cons_append, pieces, if_pos slash, behind tail noSlash, List.cons_append]
      · cases front with
        | nil =>
            refine ⟨[], c :: last, ?_, fun tail noSlash => ?_⟩
            · simp only [pieces, if_neg slash, shape, List.nil_append]
            · simp only [List.cons_append, pieces, if_neg slash, behind tail noSlash,
                List.nil_append]
        | cons piece front =>
            refine ⟨(c :: piece) :: front, last, ?_, fun tail noSlash => ?_⟩
            · simp only [pieces, if_neg slash, shape, List.cons_append]
            · simp only [List.cons_append, pieces, if_neg slash, behind tail noSlash]

theorem noSlash_toString (number : Nat) : '/' ∉ (toString number).toList := fun member =>
  absurd (isDigit_of_mem_toString member) (by decide)

theorem toString_injective {a b : Nat} (equal : toString a = toString b) : a = b := by
  have digits := congrArg String.toList equal
  rw [toList_toString, toList_toString] at digits
  have values := congrArg (Nat.ofDigitChars 10 · 0) digits
  simpa only [Nat.ofDigitChars_ten_toDigits] using values

/-- A text that ends with a number is no dot. -/
theorem goOn_append_toString (location : Location) (text : List Char) (number : Nat) :
    goOn location (String.ofList (text ++ (toString number).toList)) =
      location ++ [String.ofList (text ++ (toString number).toList)] := by
  have last := List.getLast_mem (toString_ne_nil number)
  have differs (dots : String) (noDigit : ∀ c ∈ dots.toList, ¬c.isDigit) :
      String.ofList (text ++ (toString number).toList) ≠ dots := by
    rintro rfl
    refine noDigit _ ?_ (isDigit_of_mem_toString last)
    rw [String.toList_ofList]
    exact List.mem_append_right _ last
  rw [goOn, if_neg (differs "." (by simp)), if_neg (differs ".." (by simp))]

/-- The places of a path and of the path with a number behind it. -/
theorem location_append_toString (base : String) :
    ∃ (directory : Location) (last : List Char),
      ((ofText base).location = directory ∨
        (ofText base).location = goOn directory (String.ofList last)) ∧
      ∀ number : Nat, (ofText (base ++ toString number)).location =
        directory ++ [String.ofList (last ++ (toString number).toList)] := by
  obtain ⟨front, last, shape, behind⟩ := pieces_append base.toList
  let directory := ((front.filter fun piece => !piece.isEmpty).map String.ofList).foldl goOn []
  refine ⟨directory, last, ?_, fun number => ?_⟩
  · simp only [location, ofText, shape, List.filter_append, List.map_append, List.foldl_append]
    cases last with
    | nil => exact .inl rfl
    | cons c rest => exact .inr rfl
  · have filled : (last ++ (toString number).toList).isEmpty = false := by
      rw [List.isEmpty_eq_false_iff]
      exact List.append_ne_nil_of_right_ne_nil last (toString_ne_nil number)
    simp only [location, ofText, String.toList_append, behind _ (noSlash_toString number),
      List.filter_append, List.map_append, List.foldl_append, List.filter_cons, List.filter_nil,
      filled]
    exact goOn_append_toString directory last number

end Path

namespace Routing

theorem shardPath_zero (base : String) : shardPath base 0 = base := rfl

/-- Different shards go to different places. -/
theorem location_shardPath_injective {base : String} {a b : Nat}
    (same : (Path.ofText (shardPath base a)).location =
      (Path.ofText (shardPath base b)).location) : a = b := by
  obtain ⟨directory, last, first, others⟩ := Path.location_append_toString base
  -- the first shard has no number, so its place is compared with numbered ones by hand
  have first_apart (number : Nat) : (Path.ofText base).location ≠
      (Path.ofText (base ++ toString number)).location := by
    rw [others]
    intro same
    have longer : directory.length < (Path.ofText base).location.length := by
      rw [same, List.length_append]
      exact Nat.lt_succ_self _
    rcases first with here | entered
    · exact absurd (congrArg List.length here) (Nat.ne_of_gt longer)
    · rw [entered, Path.goOn] at same longer
      split at longer
      · exact Nat.lt_irrefl _ longer
      · split at longer
        · rw [List.length_dropLast] at longer
          omega
        next noDot noDots =>
          rw [if_neg noDot, if_neg noDots] at same
          have names := String.ofList_injective
            (List.singleton_inj.1 (List.append_cancel_left same))
          exact Path.toString_ne_nil number (List.self_eq_append_right.1 names)
  by_cases a_first : a = 0
  · by_cases b_first : b = 0
    · rw [a_first, b_first]
    · rw [a_first, shardPath_zero, shardPath, if_neg b_first] at same
      exact absurd same (first_apart b)
  · by_cases b_first : b = 0
    · rw [b_first, shardPath_zero, shardPath, if_neg a_first] at same
      exact absurd same.symm (first_apart a)
    · rw [shardPath, shardPath, if_neg a_first, if_neg b_first, others, others] at same
      have names := String.ofList_injective (List.singleton_inj.1 (List.append_cancel_left same))
      exact Path.toString_injective (String.toList_injective (List.append_cancel_left names))

end Routing
end TileBindery
