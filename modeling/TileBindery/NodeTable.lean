import TileBindery.Disk.Outlet

/-!
# Node tables

A node table maps node identifiers to values.  It is filled in ascending order, then sealed, and
only then asked.  Its entries lie in a file one behind the other, so a value is found by halving the
range it can lie in.
-/

namespace TileBindery

/-- Reasons why a node table refuses an operation. -/
inductive NodeTableError where
  /-- Its file refuses an operation. -/
  | device (error : DeviceError)
  /-- An identifier behind one that is not below it. -/
  | notAscending (previous current : UInt64)
  /-- A new entry for a sealed table. -/
  | sealed
  /-- A question to a table that is still filled. -/
  | notSealed
  deriving DecidableEq, Repr

/-- The wording of a node table error. -/
def NodeTableError.message : NodeTableError → String
  | .device error => "IO error: " ++ error.message
  | .notAscending previous current =>
      "Node ids must be strictly ascending: " ++ toString current.toNat ++ " after " ++
        toString previous.toNat
  | .sealed => "Node store is sealed; no further puts"
  | .notSealed => "Node store is not sealed yet; lookups need a sealed store"

/-- Where a node table is in its life. -/
inductive NodePhase where
  | filling (buffer : WriteBuffer OpenFile) (last : Option UInt64)
  /-- Questions are answered from the file with this number, which held this many entries. -/
  | sealed (file entries : Nat)
  /-- Questions are answered without a file, as there are no entries. -/
  | sealedEmpty
  deriving DecidableEq, Repr

structure NodeTable where
  path : String
  count : Nat
  /-- Where the table is in its life. -/
  phase : NodePhase
  deriving DecidableEq, Repr

namespace NodeTable

/-- Octets of an entry: eight for the identifier, eight for the value. -/
def entrySize : Nat := 16

/-- Octets that wait in front of the file. -/
def capacity : Nat := 8192

def word (value : UInt64) : Bytes := Bytes.littleEndian 8 value.toNat

/-- The number that octets of a file hold. -/
def ofWord (octets : Bytes) : UInt64 := UInt64.ofNat (Bytes.fromLittleEndian octets)

/-- The file of a table as a destination. -/
def outlet (table : NodeTable) : Outlet Disk OpenFile := Disk.outlet false table.path

def create (path : String) (disk : Disk) : Except NodeTableError NodeTable × Disk :=
  match disk.createFile (Path.ofText path) with
  | .error error => (.error (.device error), disk)
  | .ok (file, disk) => (.ok ⟨path, 0, .filling (.ofHandle file) none⟩, disk)

/-- Add an entry, whose identifier has to be above all before it. -/
def put (table : NodeTable) (id value : UInt64) (disk : Disk) :
    Except NodeTableError Unit × NodeTable × Disk :=
  match table.phase with
  | .filling buffer last =>
      match last.filter (id ≤ ·) with
      | some previous => (.error (.notAscending previous id), table, disk)
      | none =>
          match buffer.writeAll table.outlet capacity [word id, word value] disk with
          | (.error error, buffer, disk) =>
              (.error (.device error), { table with phase := .filling buffer last }, disk)
          | (.ok (), buffer, disk) =>
              (.ok (),
                { table with count := table.count + 1, phase := .filling buffer (some id) },
                disk)
  | _ => (.error .sealed, table, disk)

/-- End filling.  The entries are read back from the file that stands at the table's path. -/
def finish (table : NodeTable) (disk : Disk) : Except NodeTableError Unit × NodeTable × Disk :=
  match table.phase with
  | .filling buffer last =>
      match buffer.flush table.outlet disk with
      | (.error error, buffer, disk) =>
          (.error (.device error), { table with phase := .filling buffer last }, disk)
      | (.ok (), buffer, disk) =>
          if table.count = 0 then (.ok (), { table with phase := .sealedEmpty }, disk)
          else
            match disk.mapFile (Path.ofText table.path) with
            | .error error =>
                (.error (.device error), { table with phase := .filling buffer last }, disk)
            | .ok file =>
                (.ok (),
                  { table with
                    phase := .sealed file ((disk.contents file).length / entrySize) },
                  disk)
  | _ => (.ok (), table, disk)

/-- The entry with a number in the contents of a file. -/
def entryAt (octets : Bytes) (number : Nat) : UInt64 × UInt64 :=
  let entry := octets.drop (number * entrySize)
  (ofWord (entry.take 8), ofWord ((entry.drop 8).take 8))

/-- The value of an identifier among the entries from `low` up to but not including `high`. -/
def search (entry : Nat → UInt64 × UInt64) (id : UInt64) (low high : Nat) : Option UInt64 :=
  if low < high then
    let middle := low + (high - low) / 2
    let (found, value) := entry middle
    if found = id then some value
    else if found < id then search entry id (middle + 1) high
    else search entry id low middle
  else none
  termination_by high - low

/-- The value of an identifier in a sealed table, if it has one. -/
def get? (table : NodeTable) (id : UInt64) (disk : Disk) :
    Except NodeTableError (Option UInt64) :=
  match table.phase with
  | .filling _ _ => .error .notSealed
  | .sealedEmpty => .ok none
  | .sealed file entries => .ok (search (entryAt (disk.contents file)) id 0 entries)

/-- Give the table up and remove its file, which has to exist. -/
def delete (table : NodeTable) (disk : Disk) : Except NodeTableError Unit × Disk :=
  match disk.removeFile (Path.ofText table.path) with
  | .ok disk => (.ok (), disk)
  | .error error => (.error (.device error), disk)

/-- Give the table up and remove its file if it is there. -/
def discard (table : NodeTable) (disk : Disk) : Disk := disk.dropFile (Path.ofText table.path)

end NodeTable
end TileBindery
