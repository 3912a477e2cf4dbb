import TileBindery.Proofs.Archive.EntryArchive
import TileBindery.Proofs.Archive.Lengths

/-!
# Streams of entries that are cut

A stream of entries that ends early gives the entries that it still holds whole.  It ends cleanly if
it was cut between two of them; anywhere else, be it inside a length or behind one, the reader
reports the cut once.
-/

namespace TileBindery
namespace EntryStream

open EntryFormat

/-! ### Entries as they are read back -/

theorem putNonzeroDouble_plainZero (field : Nat) (value : Binary64) :
    putNonzeroDouble field (plainZero value) = putNonzeroDouble field value := by
  rw [plainZero]
  split
  next zero =>
    rw [putNonzeroDouble, putNonzeroDouble, if_pos zero]
    rfl
  next => rfl

theorem putMetadata_plain (record : MetadataRecord) :
    putMetadata record.plain = putMetadata record := by
  have envelope (box : Envelope) : putEnvelope box.plain = putEnvelope box := by
    simp only [putEnvelope, Envelope.plain, putNonzeroDouble_plainZero]
  have place (center : Center) : putCenter center.plain = putCenter center := by
    simp only [putCenter, Center.plain, putNonzeroDouble_plainZero]
  obtain ⟨_, _, _, _, _, _, bounds, center, _, _, _, _, _⟩ := record
  cases bounds <;> cases center <;>
    simp only [MetadataRecord.plain, putMetadata, putOption, Option.map, envelope, place]

/-- An entry that is read back has the octets of the entry that was written. -/
theorem frame_plain (entry : ArchiveEntry) : frame entry.plain = frame entry := by
  have octets : putEntry entry.plain = putEntry entry := by
    cases entry with
    | blank => rfl
    | tile record => rfl
    | header metadata =>
        cases metadata with
        | none => rfl
        | some record => simp only [ArchiveEntry.plain, putEntry, putFrame, putOption, Option.map,
            putMetadata_plain]
    | footer metadata =>
        cases metadata with
        | none => rfl
        | some record => simp only [ArchiveEntry.plain, putEntry, putFrame, putOption, Option.map,
            putMetadata_plain]
  rw [frame, frame, octets]

/-! ### Cuts inside an entry -/

/-- The octets of a length: each says that another one follows, but for the last. -/
theorem exists_varint (n : Nat) :
    ∃ digits last, Wire.varint n = digits ++ [last] ∧ (∀ octet ∈ digits, continues octet) := by
  induction n using Nat.strongRecOn with
  | ind n ih =>
      rcases Nat.lt_or_ge n 128 with small | large
      · exact ⟨[], _, Wire.varint_of_lt small, fun _ member => absurd member List.not_mem_nil⟩
      · obtain ⟨digits, last, shape, all⟩ := ih (n / 128) (by omega)
        refine ⟨_ :: digits, last, by rw [Wire.varint_of_le large, shape, List.cons_append], ?_⟩
        have octet : (UInt8.ofNat (n % 128 + 128)).toNat = n % 128 + 128 :=
          UInt8.toNat_ofNat_of_lt' (show _ < 256 by omega)
        refine List.forall_mem_cons.2 ⟨?_, all⟩
        rw [continues, octet]
        exact decide_eq_true (Nat.le_add_left _ _)

theorem length_varint_le {n limit : Nat} (fits : n < 128 ^ (limit + 1)) :
    (Wire.varint n).length ≤ limit + 1 := by
  induction limit generalizing n with
  | zero => rw [Wire.varint_of_lt fits]; rfl
  | succ limit ih =>
      rcases Nat.lt_or_ge n 128 with small | large
      · rw [Wire.varint_of_lt small]
        exact Nat.succ_le_succ (Nat.zero_le _)
      · rw [Wire.varint_of_le large, List.length_cons]
        rw [Nat.pow_succ, Nat.mul_comm] at fits
        exact Nat.succ_le_succ (ih (Nat.div_lt_of_lt_mul fits))

/-- What is reported of a stream that ends with the front of an entry. -/
def cutFault (entry : ArchiveEntry) (left : Bytes) : DecodeError :=
  if left.length < (Wire.varint (putEntry entry).length).length then .cutLength
  else .cutEntry (putEntry entry).length

variable {entry : ArchiveEntry} {left : Bytes}

theorem next_of_cutLength (small : (putEntry entry).length ≤ maxEntry)
    (front : left <+: frame entry) (inside : left ≠ [])
    (short : left.length < (Wire.varint (putEntry entry).length).length) :
    next (.ofBytes left) = .failed (.decode .cutLength) := by
  obtain ⟨digits, last, shape, all⟩ := exists_varint (putEntry entry).length
  have few : (Wire.varint (putEntry entry).length).length ≤ 10 :=
    length_varint_le (Nat.lt_of_le_of_lt small (by decide))
  have within : left <+: digits := by
    have whole : digits <+: frame entry := by
      rw [frame, Wire.putBytes, shape, List.append_assoc]
      exact List.prefix_append _ _
    rw [shape, List.length_append, List.length_singleton] at short
    exact List.prefix_of_prefix_length_le front whole (Nat.le_of_lt_succ short)
  have cut : readLength (.ofBytes left) = _ :=
    readLength_of_cut (fun octet member => all octet (within.subset member))
      (Nat.lt_of_lt_of_le short few)
  have given : left.isEmpty = false := by simpa using inside
  rw [next, cut, given]
  rfl

theorem next_of_cutEntry (small : (putEntry entry).length ≤ maxEntry) {part : Bytes}
    (short : part.length < (putEntry entry).length) :
    next (.ofBytes (Wire.varint (putEntry entry).length ++ part)) =
      .failed (.decode (.cutEntry (putEntry entry).length)) := by
  have fits : (putEntry entry).length < 2 ^ 64 := Nat.lt_of_le_of_lt small (by decide)
  have ended : (ByteSource.ofBytes part).take (putEntry entry).length = .ended := by
    simp only [ByteSource.take, ByteSource.ofBytes, Bytes.take?_eq, if_neg (Nat.not_le.2 short)]
  rw [next, readLength_varint fits]
  simp only [if_neg (Nat.not_lt.2 small), ended]

/-- An entry of which a part is missing is reported. -/
theorem next_of_cut (small : (putEntry entry).length ≤ maxEntry) (front : left <+: frame entry)
    (inside : left ≠ []) (cut : left ≠ frame entry) :
    next (.ofBytes left) = .failed (.decode (cutFault entry left)) := by
  rw [cutFault]
  split
  next short => exact next_of_cutLength small front inside short
  next long =>
    have length : Wire.varint (putEntry entry).length <+: left :=
      List.prefix_of_prefix_length_le (List.prefix_append _ _) front (Nat.not_lt.1 long)
    obtain ⟨part, rfl⟩ := length
    rw [frame, Wire.putBytes] at front cut
    have within : part <+: putEntry entry := (List.prefix_append_right_inj _).1 front
    apply next_of_cutEntry small
    refine Nat.lt_of_le_of_ne within.length_le fun same => cut ?_
    rw [within.eq_of_length same]

/-! ### Cut streams -/

theorem frame_ne_nil (entry : ArchiveEntry) : frame entry ≠ [] := fun empty =>
  Wire.varint_ne_nil _ (List.append_eq_nil_iff.1 empty).1

/-- A cut stream holds some entries, and `left` of the one behind them. -/
structure CutBehind (entries : List ArchiveEntry) (cut : Bytes) (whole : List ArchiveEntry)
    (left : Bytes) : Prop where
  octets : cut = whole.flatMap frame ++ left
  /-- Nothing is left if the stream is cut between two entries, and else a part of the next one. -/
  place : whole <+: entries ∧ left = [] ∨
    ∃ entry, whole ++ [entry] <+: entries ∧ left <+: frame entry ∧ left ≠ [] ∧ left ≠ frame entry

variable {entries whole : List ArchiveEntry} {cut : Bytes}

/-- Every cut falls behind some entries. -/
theorem exists_cutBehind (front : cut <+: entries.flatMap frame) :
    ∃ whole left, CutBehind entries cut whole left := by
  induction entries generalizing cut with
  | nil =>
      obtain rfl := List.prefix_nil.1 front
      exact ⟨[], [], rfl, .inl ⟨List.nil_prefix, rfl⟩⟩
  | cons entry rest ih =>
      rw [List.flatMap_cons] at front
      by_cases reaches : frame entry <+: cut
      · obtain ⟨behind, rfl⟩ := reaches
        obtain ⟨whole, left, rfl, place⟩ := ih ((List.prefix_append_right_inj _).1 front)
        refine ⟨entry :: whole, left, by rw [List.flatMap_cons, List.append_assoc], ?_⟩
        refine place.imp (And.imp_left (List.cons_prefix_cons.2 ⟨rfl, ·⟩)) ?_
        rintro ⟨next, more, within⟩
        exact ⟨next, List.cons_prefix_cons.2 ⟨rfl, more⟩, within⟩
      · by_cases nothing : cut = []
        · exact ⟨[], [], nothing, .inl ⟨List.nil_prefix, rfl⟩⟩
        · have within : cut <+: frame entry :=
            (List.prefix_or_prefix_of_prefix front (List.prefix_append _ _)).resolve_right reaches
          refine ⟨[], cut, rfl, .inr ⟨entry, ?_, within, nothing, ?_⟩⟩
          · exact List.cons_prefix_cons.2 ⟨rfl, List.nil_prefix⟩
          · rintro rfl
            exact reaches (List.prefix_refl _)

namespace CutBehind

theorem front (behind : CutBehind entries cut whole left) : whole <+: entries := by
  rcases behind.place with ⟨front, -⟩ | ⟨entry, front, -⟩
  · exact front
  · exact (List.prefix_append _ _).trans front

/-- The stream does not hold the entry behind them. -/
theorem not_held (behind : CutBehind entries cut whole left) {entry : ArchiveEntry}
    (front : whole ++ [entry] <+: entries) : ¬frame entry <+: left := by
  intro held
  rcases behind.place with ⟨-, rfl⟩ | ⟨next, next_front, within, -, part⟩
  · exact frame_ne_nil entry (List.prefix_nil.1 held)
  · have same : whole ++ [entry] = whole ++ [next] := by
      refine (List.prefix_of_prefix_length_le front next_front ?_).eq_of_length ?_ <;> simp
    obtain rfl := List.singleton_inj.1 (List.append_cancel_left same)
    exact part (within.eq_of_length (Nat.le_antisymm within.length_le held.length_le))

/-- The stream holds no more entries than these. -/
theorem most (behind : CutBehind entries cut whole left) {others : List ArchiveEntry}
    (front : others <+: entries) (held : others.flatMap frame <+: cut) : others <+: whole := by
  rcases List.prefix_or_prefix_of_prefix front behind.front with fewer | ⟨more, rfl⟩
  · exact fewer
  · cases more with
    | nil => simp
    | cons entry more =>
        have next : whole ++ [entry] <+: entries := by
          refine .trans ((List.prefix_append_right_inj whole).2 ?_) front
          exact List.cons_prefix_cons.2 ⟨rfl, List.nil_prefix⟩
        rw [behind.octets, List.flatMap_append, List.flatMap_cons,
          List.prefix_append_right_inj] at held
        exact absurd ((List.prefix_append _ _).trans held) (behind.not_held next)

/-- Nothing is left exactly if the stream is cut behind some entry. -/
theorem left_eq_nil_iff (behind : CutBehind entries cut whole left) :
    left = [] ↔ ∃ border, border <+: entries ∧ cut = border.flatMap frame := by
  constructor
  · rintro rfl
    exact ⟨whole, behind.front, by rw [behind.octets, List.append_nil]⟩
  · rintro ⟨border, front, shape⟩
    obtain ⟨more, rfl⟩ := behind.most front (shape ▸ List.prefix_refl _)
    have octets := behind.octets
    rw [shape, List.flatMap_append, List.append_assoc, List.self_eq_append_right] at octets
    exact (List.append_eq_nil_iff.1 octets).2

end CutBehind

/-- Whole entries are read, and then what is behind them. -/
theorem yields_frames (small : ∀ entry ∈ whole, (putEntry entry).length ≤ maxEntry)
    {items : List (Except ArchiveError ArchiveEntry)}
    (behind : StreamReader.Yields read (.ofBytes left) items) :
    StreamReader.Yields read (.ofBytes (whole.flatMap frame ++ left))
      (whole.map (fun entry => .ok entry.plain) ++ items) := by
  induction whole with
  | nil => exact behind
  | cons entry whole ih =>
      rw [List.flatMap_cons, List.append_assoc]
      refine .item (congrArg Next.reading (next_frame (small entry List.mem_cons_self) _)) ?_
      exact ih fun other member => small other (List.mem_cons_of_mem _ member)

theorem CutBehind.yields (behind : CutBehind entries cut whole left)
    (small : ∀ entry ∈ entries, (putEntry entry).length ≤ maxEntry) :
    ∃ fault : Option DecodeError, (fault = none ↔ left = []) ∧
      (∀ error, fault = some error → ∃ entry, whole ++ [entry] <+: entries ∧
        left <+: frame entry ∧ error = cutFault entry left) ∧
      StreamReader.Yields read (.ofBytes cut) (whole.map (fun entry => .ok entry.plain) ++
        fault.toList.map fun error => .error (.decode error)) := by
  have whole_small : ∀ entry ∈ whole, (putEntry entry).length ≤ maxEntry := fun entry member =>
    small entry (behind.front.subset member)
  rw [behind.octets]
  rcases behind.place with ⟨-, rfl⟩ | ⟨entry, front, within, inside, part⟩
  · refine ⟨none, by simp, nofun, yields_frames whole_small (.ended ?_)⟩
    rfl
  · refine ⟨some (cutFault entry left), by simpa using inside, ?_, ?_⟩
    · rintro _ ⟨⟩
      exact ⟨entry, front, within, rfl⟩
    · have member : entry ∈ entries := front.subset (by simp)
      refine yields_frames whole_small (.failed ?_)
      exact congrArg Next.reading (next_of_cut (small entry member) within inside part)

/-- A stream of entries, none of which is too large, is cut anywhere.  A reader gives the entries
that the cut stream holds whole, in order and as their octets say.  It then ends if the stream was
cut behind an entry or in front of the first one; otherwise it reports once whether the cut lies
inside the length of the next entry or behind it.  Further calls give nothing. -/
theorem cut_stream_is_noticed (small : ∀ entry ∈ entries, (putEntry entry).length ≤ maxEntry)
    (front : cut <+: entries.flatMap frame) :
    ∃ whole, whole <+: entries ∧ whole.flatMap frame <+: cut ∧
      (∀ others, others <+: entries → others.flatMap frame <+: cut → others <+: whole) ∧
      (∀ entry ∈ whole, frame entry.plain = frame entry) ∧
      ∃ fault : Option DecodeError,
        (fault = none ↔ ∃ border, border <+: entries ∧ cut = border.flatMap frame) ∧
        (∀ error, fault = some error → ∃ entry left, whole ++ [entry] <+: entries ∧
          cut = whole.flatMap frame ++ left ∧ left <+: frame entry ∧
          error = cutFault entry left) ∧
        ∀ count, (StreamReader.start (.ofBytes cut)).calls read count =
          (List.range count).map fun index => (whole.map (fun entry => .ok entry.plain) ++
            fault.toList.map fun error => .error (.decode error))[index]? := by
  obtain ⟨whole, left, behind⟩ := exists_cutBehind front
  obtain ⟨fault, sound, reported, yields⟩ := behind.yields small
  refine ⟨whole, behind.front, ?_, fun others => behind.most, fun entry _ => frame_plain entry,
    fault, sound.trans behind.left_eq_nil_iff, ?_, StreamReader.calls_of_yields yields⟩
  · rw [behind.octets]
    exact List.prefix_append _ _
  · intro error found
    obtain ⟨entry, next, within, rfl⟩ := reported error found
    exact ⟨entry, left, next, behind.octets, within, rfl⟩

def smallTile : ArchiveEntry := .tile ⟨1, 0, 1, [7]⟩

/-- An entry whose length takes two octets. -/
def wideTile : ArchiveEntry := .tile ⟨0, 0, 0, List.replicate 200 7⟩

theorem cut_stream_is_noticed_wideTile :
    (∀ entry ∈ [smallTile, wideTile], (putEntry entry).length ≤ maxEntry) ∧
      frame smallTile ++ [0xCE] <+: [smallTile, wideTile].flatMap frame ∧
      ∀ count, (StreamReader.start (.ofBytes (frame smallTile ++ [0xCE]))).calls read count =
        (List.range count).map fun index =>
          [.ok smallTile, .error (.decode .cutLength)][index]? := by
  have small : ∀ entry ∈ [smallTile, wideTile], (putEntry entry).length ≤ maxEntry := by
    decide +kernel
  have front : frame smallTile ++ [0xCE] <+: [smallTile, wideTile].flatMap frame := by
    decide +kernel
  refine ⟨small, front, ?_⟩
  obtain ⟨whole, whole_front, held, most, -, fault, sound, reported, calls⟩ :=
    cut_stream_is_noticed small front
  obtain ⟨more, rfl⟩ := most [smallTile] (by decide) (by decide +kernel)
  obtain rfl : more = [] := by
    rcases List.prefix_cons_iff.1 (List.cons_prefix_cons.1 whole_front).2 with none | ⟨_, rfl, -⟩
    · exact none
    · have octets := held.length_le
      have wide : (frame wideTile).length = 208 := by decide +kernel
      simp [wide] at octets
      omega
  cases fault with
  | none =>
      obtain ⟨border, border_front, shape⟩ := sound.1 rfl
      have fewer := most border border_front (shape ▸ List.prefix_refl _)
      rcases List.prefix_cons_iff.1 fewer with rfl | ⟨_, rfl, tail⟩
      · simp at shape
      · obtain rfl := List.prefix_nil.1 tail
        simp at shape
  | some error =>
      obtain ⟨entry, left, next, shape, -, rfl⟩ := reported error rfl
      obtain rfl : entry = wideTile := by simpa using next
      obtain rfl : [0xCE] = left := by simpa using shape
      rw [cutFault, if_pos (by decide +kernel)] at calls
      exact calls

end EntryStream
end TileBindery
