/-!
# Separators

A separator divides a sequence of octets or characters into pieces.  Nothing is quoted or escaped,
so a piece ends at the first place where the separator stands.  The main statement says that
cutting loses nothing but the separator.
-/

namespace TileBindery
namespace Separator

variable {α : Type}

/-- Cut a sequence at the first place where a separator stands, into what is in front of it and
what is behind it. -/
@[specialize]
def cut? [BEq α] (separator : List α) : List α → Option (List α × List α)
  | [] => if separator.isEmpty then some ([], []) else none
  | item :: rest =>
      if separator.isPrefixOf (item :: rest) then
        some ([], (item :: rest).drop separator.length)
      else (cut? separator rest).map fun (front, behind) => (item :: front, behind)

theorem eq_append_of_cut? [BEq α] [LawfulBEq α] {separator items front behind : List α}
    (h : cut? separator items = some (front, behind)) : items = front ++ separator ++ behind := by
  induction items generalizing front behind with
  | nil =>
      unfold cut? at h
      split at h
      next none =>
        cases h
        simpa using none
      · simp at h
  | cons item rest ih =>
      unfold cut? at h
      split at h
      next here =>
        obtain ⟨behind', shape⟩ := List.isPrefixOf_iff_prefix.1 here
        cases h
        simp [← shape]
      · obtain ⟨⟨front', behind'⟩, found, parts⟩ := Option.map_eq_some_iff.1 h
        cases parts
        simpa using ih found

end Separator
end TileBindery
