import TileBindery.Proofs.Spill.Damage

/-!
# Altered headers

The header of a chunk file is not covered by a check value.  What is read behind an altered header is
told by three of its fields: an unknown mark or version is damage; behind a clear flag as many records
are read as the header counts, and damage is found if there are not as many; behind a flag that is set
as many are read from whatever the records unpack to.  So behind a clear flag records are lost without
an error exactly where the count has been lowered.
-/

namespace TileBindery

namespace ChunkRecord

theorem Longest.unique {count : Nat} {octets : Bytes} {run others : List Feature}
    (first : Longest count octets run) (second : Longest count octets others) : run = others :=
  (second.longest run first.leads first.few).eq_of_length (Nat.le_antisymm
    (second.longest run first.leads first.few).length_le
    (first.longest others second.leads second.few).length_le)

theorem encode_ne_nil (feature : Feature) : encode feature ≠ [] := by
  intro empty
  have lengths := congrArg List.length empty
  simp [encode, content] at lengths

/-- Of some records the first ones are the longest run. -/
theorem longest_take (count : Nat) {features : List Feature}
    (fits : ∀ feature ∈ features, feature.payload.length ≤ maxPayload) :
    Longest count (features.flatMap encode) (features.take count) := by
  have leads {front : List Feature} (front_of : front <+: features) :
      Leads (features.flatMap encode) front := by
    obtain ⟨behind, rfl⟩ := front_of
    refine ⟨front.flatMap encode, encodeAll_of_fits fun feature member =>
      fits feature (List.mem_append_left _ member), ?_⟩
    rw [List.flatMap_append]
    exact List.prefix_append _ _
  refine ⟨List.length_take_le _ _, leads (List.take_prefix _ _), fun others others_lead few => ?_⟩
  have none (feature : Feature) (behind : Bytes) (_ : feature.payload.length ≤ maxPayload) :
      ([] : Bytes) ≠ encode feature ++ behind :=
    fun same => encode_ne_nil feature (List.append_eq_nil_iff.1 same.symm).1
  have front : others <+: features := by
    refine Leads.prefix_of_stop fits none ?_
    rwa [List.append_nil]
  rw [List.prefix_iff_eq_take.1 front]
  exact List.take_prefix_take_left few

end ChunkRecord

namespace Chunk

open ChunkRecord

/-- What is read behind a header in front of the records of features. -/
structure Behind [Codec] (header : ChunkHeader) (features : List Feature) (contents : RunContents) :
    Prop where
  unknown : header.isValid = false → ∃ damage, contents = ⟨[], some (.corruption damage)⟩
  /-- Behind a clear flag the count tells how many records are read. -/
  counted : header.isValid = true → header.isCompressed = false →
    contents.features = features.take header.count.toNat ∧
      (contents.fault = none ↔ header.count.toNat ≤ features.length)
  /-- Behind a flag that is set the records are those of what the body unpacks to. -/
  packed : header.isValid = true → header.isCompressed = true →
    Longest header.count.toNat (Codec.unpack (features.flatMap ChunkRecord.encode)).octets
        contents.features ∧
      (contents.fault = none ↔ contents.features.length = header.count.toNat)

/-- Whatever header stands in front of the records of features. -/
theorem behind_of_read [Codec] {disk : Disk} {chunk : Chunk} {head : Bytes} {features : List Feature}
    (width : head.length = ChunkHeader.size)
    (fits : ∀ feature ∈ features, feature.payload.length ≤ maxPayload)
    (found : disk.read (Path.ofText chunk.path) =
      .ok (head ++ features.flatMap ChunkRecord.encode)) :
    Behind (ChunkHeader.decode head) features (chunk.contents disk) := by
  have front : (head ++ features.flatMap ChunkRecord.encode).take ChunkHeader.size = head :=
    List.take_left' width
  have rest : (head ++ features.flatMap ChunkRecord.encode).drop ChunkHeader.size =
      features.flatMap ChunkRecord.encode := List.drop_left' width
  have long : ChunkHeader.size ≤ (head ++ features.flatMap ChunkRecord.encode).length := by
    rw [List.length_append, width]
    exact Nat.le_add_right _ _
  constructor
  case unknown =>
    intro foreign
    refine contents_of_unknown found fun known => ?_
    rw [front, foreign] at known
    exact Bool.false_ne_true known.2
  case counted =>
    intro known plain
    obtain ⟨run, ending⟩ := longest_of_plain found long (front.symm ▸ known) (front.symm ▸ plain)
    rw [front] at run ending
    rw [rest] at run
    have taken := run.unique (longest_take _ fits)
    rw [taken, List.length_take] at ending
    refine ⟨taken, ?_⟩
    rcases ending with ⟨all, sound⟩ | ⟨fewer, damage, fault⟩
    · exact iff_of_true sound (by omega)
    · exact iff_of_false (by simp [fault]) (by omega)
  case packed =>
    intro known flag
    have found_run := longest_of_packed found long (front.symm ▸ known) (front.symm ▸ flag)
    rwa [front, rest] at found_run

/-- A header does not hide any of the features: what it announces cannot be read without them.  Behind
a flag that is set it announces a record, and what the body unpacks to does not start with any. -/
def Discloses [Codec] (header : ChunkHeader) (features : List Feature) : Prop :=
  header.isValid = true →
    if header.isCompressed then
      header.count ≠ 0 ∧
        ∀ found, Leads (Codec.unpack (features.flatMap ChunkRecord.encode)).octets found → found = []
    else features.length ≤ header.count.toNat

theorem Behind.frontOf [Codec] {header : ChunkHeader} {features : List Feature}
    {contents : RunContents} (behind : Behind header features contents)
    (discloses : Discloses header features) : contents.FrontOf features := by
  cases known : header.isValid with
  | false =>
      obtain ⟨damage, only⟩ := behind.unknown known
      rw [only]
      exact ⟨List.nil_prefix, nofun⟩
  | true =>
      have enough := discloses known
      cases flag : header.isCompressed with
      | true =>
          rw [if_pos flag] at enough
          obtain ⟨announces, none⟩ := enough
          obtain ⟨run, ending⟩ := behind.packed known flag
          have empty := none _ run.leads
          rw [empty, List.length_nil] at ending
          refine ⟨empty ▸ List.nil_prefix, fun sound => ?_⟩
          exact absurd (UInt64.toNat_inj.1 (ending.1 sound).symm) announces
      | false =>
          rw [flag, if_neg Bool.false_ne_true] at enough
          obtain ⟨front, -⟩ := behind.counted known flag
          rw [List.take_of_length_le enough] at front
          exact ⟨front ▸ List.prefix_refl _, fun _ => front⟩

/-- Behind a clear flag, exactly the headers that count too few records hide some. -/
theorem Behind.fails_or_whole_iff [Codec] {header : ChunkHeader} {features : List Feature}
    {contents : RunContents} (behind : Behind header features contents)
    (plain : header.isCompressed = false) :
    (contents.fault ≠ none ∨ contents = ⟨features, none⟩) ↔ Discloses header features := by
  constructor
  · intro outcome known
    rw [plain, if_neg Bool.false_ne_true]
    obtain ⟨front, sound⟩ := behind.counted known plain
    rcases outcome with fault | whole
    · have more := mt sound.2 fault
      omega
    · rw [whole] at front sound
      exact List.take_eq_self_iff _ |>.1 front.symm
  · intro discloses
    have front := behind.frontOf discloses
    by_cases sound : contents.fault = none
    · right
      obtain ⟨own, fault⟩ := contents
      cases sound
      cases front.whole rfl
      rfl
    · exact .inl sound

/-- The header that the file of a chunk has. -/
def header (chunk : Chunk) (disk : Disk) : ChunkHeader :=
  .decode (((disk.read (Path.ofText chunk.path)).toOption.getD []).take ChunkHeader.size)

end Chunk

namespace Sorter

open ChunkRecord

/-- The headers of a sorter's chunk files may have been altered, but nothing behind them. -/
def HeadersAltered (sorter : Sorter) (disk other : Disk) : Prop :=
  ∀ chunk ∈ sorter.chunks, ∀ octets, disk.read (Path.ofText chunk.path) = .ok octets →
    ∃ head : Bytes, head.length = ChunkHeader.size ∧
      other.read (Path.ofText chunk.path) = .ok (head ++ octets.drop ChunkHeader.size)

variable {sorter : Sorter} {disk other : Disk} {features : List Feature}

theorem Holds.behind_header [Codec] (holds : sorter.Holds disk features)
    (plain : sorter.config.compress = false) (altered : sorter.HeadersAltered disk other)
    {chunk : Chunk} (member : chunk ∈ sorter.chunks) :
    Chunk.Behind (chunk.header other) (chunk.contents disk).features (chunk.contents other) := by
  obtain ⟨slice, own, fits⟩ := holds.exists_slice member
  obtain ⟨head, width, found⟩ := altered chunk member _ (own.read_plain plain fits)
  rw [List.drop_left' (ChunkHeader.length_encode _)] at found
  have header : chunk.header other = .decode head := by
    rw [Chunk.header, found]
    exact congrArg ChunkHeader.decode (List.take_left' width)
  rw [header, own.contents (SpillConfig.lossless_of_plain plain) fits]
  refine Chunk.behind_of_read width (fun feature feature_mem => fits feature ?_) found
  exact (stableOrder_inKeyOrder slice).mem_iff.1 feature_mem

/-- What becomes of a sorter's features when headers of its plain chunk files are altered.  Whatever
header a file has got, it tells what is read behind it; unless it sets the flag, the chunk fails or
gives all of its features exactly if the header counts as many at least.  If no header hides features
of its chunk, the merge hands out all features in key order, or the first ones and then an error. -/
theorem altered_headers [Codec] (holds : sorter.Holds disk features)
    (plain : sorter.config.compress = false) (altered : sorter.HeadersAltered disk other) :
    (∀ chunk ∈ sorter.chunks,
      Chunk.Behind (chunk.header other) (chunk.contents disk).features (chunk.contents other) ∧
      ((chunk.header other).isCompressed = false →
        (((chunk.contents other).fault ≠ none ∨ chunk.contents other = chunk.contents disk) ↔
          Chunk.Discloses (chunk.header other) (chunk.contents disk).features))) ∧
    ((∀ chunk ∈ sorter.chunks,
        Chunk.Discloses (chunk.header other) (chunk.contents disk).features) →
      ∀ merge after behind, sorter.sort other = (.ok merge, after, behind) →
        ∃ handed : RunContents, (merge.drain behind).1 = handed.items ∧
          handed.FrontOf (inKeyOrder features)) := by
  have lossless := SpillConfig.lossless_of_plain plain
  refine ⟨fun chunk member => ⟨holds.behind_header plain altered member, fun clear => ?_⟩,
    fun discloses merge after behind sorted => ?_⟩
  · obtain ⟨slice, own, fits⟩ := holds.exists_slice member
    have iff := (holds.behind_header plain altered member).fails_or_whole_iff clear
    rwa [own.contents lossless fits] at iff ⊢
  · have frays : sorter.Frays other features := holds.frays lossless fun chunk member =>
      (holds.behind_header plain altered member).frontOf (discloses chunk member)
    obtain ⟨handed, yields, front⟩ := frays.sort sorted
    exact ⟨handed, Merge.drain_of_yields yields, front⟩

/-! ### Two features, one of which is hidden -/

def pair : List Feature := [⟨3, [1]⟩, ⟨4, [2]⟩]

def pairChunk : Chunk := ⟨"/chunk-000000.chunk", 0, 2, 66⟩

/-- A sorter that has spilled two features. -/
def pairSorter : Sorter :=
  { Sorter.fresh "/" .standard with chunks := [pairChunk], nextChunk := 1, counters := ⟨2, 1, 66⟩ }

/-- Its disk, once the header of its chunk counts some features. -/
def pairDisk (count : UInt64) : Disk where
  entries := [(["chunk-000000.chunk"], .file 0)]
  files := [(ChunkHeader.ofCounts 0 count false).encode ++ pair.flatMap encode]

theorem read_pairDisk (count : UInt64) :
    (pairDisk count).read (Path.ofText pairChunk.path) =
      .ok ((ChunkHeader.ofCounts 0 count false).encode ++ pair.flatMap encode) := by
  rfl

theorem inKeyOrder_pair : inKeyOrder pair = pair :=
  inKeyOrder_of_ascending (by decide)

theorem holds_pairChunk [Codec] : pairChunk.Holds "/" .standard (pairDisk 2) pair where
  path := by decide +kernel
  stored := by
    refine ⟨_, ?_, read_pairDisk 2⟩
    rw [inKeyOrder_pair]
    rfl
  few := by decide

theorem holds_pairSorter [Codec] : pairSorter.Holds (pairDisk 2) pair where
  collecting := rfl
  valid := rfl
  slices := ⟨[pair], .cons holds_pairChunk .nil, rfl⟩
  fresh := by decide
  fits := by decide
  size := by decide
  room := by decide
  counted := rfl

theorem headersAltered_pairSorter (count : UInt64) :
    pairSorter.HeadersAltered (pairDisk 2) (pairDisk count) := by
  intro chunk member octets found
  obtain rfl := List.mem_singleton.1 member
  cases (read_pairDisk 2).symm.trans found
  refine ⟨_, ChunkHeader.length_encode (.ofCounts 0 count false), ?_⟩
  rw [List.drop_left' (ChunkHeader.length_encode _)]
  exact read_pairDisk count

section

attribute [local instance] Frame.codec

/-- A header that counts one of them leaves the other unread, and no error. -/
theorem altered_headers_pair :
    pairSorter.Holds (pairDisk 2) pair ∧ pairSorter.config.compress = false ∧
      pairSorter.HeadersAltered (pairDisk 2) (pairDisk 1) ∧
      pairChunk.contents (pairDisk 1) = ⟨[⟨3, [1]⟩], none⟩ := by
  refine ⟨holds_pairSorter, rfl, headersAltered_pairSorter 1, ?_⟩
  obtain ⟨each, -⟩ := altered_headers holds_pairSorter rfl (headersAltered_pairSorter 1)
  obtain ⟨behind, -⟩ := each pairChunk List.mem_cons_self
  obtain ⟨front, sound⟩ := behind.counted (by decide +kernel) (by decide +kernel)
  have whole : (pairChunk.contents (pairDisk 2)).features = pair := by
    rw [holds_pairChunk.contents (SpillConfig.lossless_of_plain rfl) (by decide), inKeyOrder_pair]
  have one : (pairChunk.header (pairDisk 1)).count.toNat = 1 := by decide +kernel
  rw [whole, one] at front sound
  generalize pairChunk.contents (pairDisk 1) = contents at front sound
  obtain ⟨features, fault⟩ := contents
  cases front
  cases sound.2 (by decide)
  rfl

/-- The merge of its runs then. -/
def hiddenMerge : Merge where
  sources := [⟨⟨3, [1]⟩, .chunk pairChunk
    ⟨pairChunk.path, .ofCounts 0 1 false, 0, .plain ⟨0, 66, encode ⟨4, [2]⟩⟩⟩⟩]
  stalled := none
  pending := none
  finished := false

theorem sort_pairSorter :
    ∃ after, pairSorter.sort (pairDisk 1) = (.ok hiddenMerge, after, pairDisk 1) := by
  have started : Merge.ofRuns [pairChunk] [] (pairDisk 1) = (.ok hiddenMerge, pairDisk 1) := by
    decide +kernel
  refine ⟨pairSorter.emptied, sort_of_merge rfl ?_⟩
  rw [show inKeyOrder pairSorter.buffer.toList = [] from List.mergeSort_nil]
  exact started

theorem drain_hiddenMerge : (hiddenMerge.drain (pairDisk 1)).1 = [.ok ⟨3, [1]⟩] := by
  obtain ⟨behind, first⟩ : ∃ behind, hiddenMerge.next (pairDisk 1) =
      (some (.ok ⟨3, [1]⟩), ⟨[], none, none, false⟩, behind) := ⟨_, rfl⟩
  have second : (⟨[], none, none, false⟩ : Merge).next behind =
      (none, ⟨[], none, none, true⟩, behind) := rfl
  rw [Merge.drain_of_next first, Merge.drain_of_end second]

/-- Altered headers can make the merge hand out fewer features without an error. -/
theorem headers_hide_features :
    ¬∀ (sorter after : Sorter) (disk other behind : Disk) (features : List Feature) (merge : Merge),
      sorter.Holds disk features → sorter.config.compress = false →
      sorter.HeadersAltered disk other → sorter.sort other = (.ok merge, after, behind) →
      ∃ handed : RunContents, (merge.drain behind).1 = handed.items ∧
        handed.FrontOf (inKeyOrder features) := by
  intro noticed
  obtain ⟨after, sorted⟩ := sort_pairSorter
  obtain ⟨⟨found, fault⟩, drained, front⟩ := noticed pairSorter after (pairDisk 2) (pairDisk 1)
    (pairDisk 1) pair hiddenMerge holds_pairSorter rfl (headersAltered_pairSorter 1) sorted
  have lengths : (1 : Nat) = found.length + fault.toList.length := by
    simpa [drain_hiddenMerge, RunContents.items] using congrArg List.length drained
  cases fault with
  | none =>
      have all := congrArg List.length (front.whole rfl)
      rw [inKeyOrder_pair] at all
      exact absurd (lengths.trans all) (by decide)
  | some error =>
      have none : found = [] := List.length_eq_zero_iff.1 (Nat.succ.inj lengths).symm
      rw [drain_hiddenMerge, RunContents.items, none] at drained
      cases drained

end

end Sorter
end TileBindery
