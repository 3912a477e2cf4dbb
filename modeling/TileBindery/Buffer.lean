import TileBindery.Device

/-!
# Destinations and write buffers

A destination is opened once and then takes octets.  What it does with them is up to the world it
lives in: a disk, or memory with limits.  A buffer in front of a destination collects small writes
and hands them over in one go.
-/

namespace TileBindery

/-- How a destination of a world `σ` is opened and written to.  `η` is what an open destination is
held by. -/
structure Outlet (σ η : Type) where
  acquire : σ → Except DeviceError η × σ
  /-- Hand over octets, all of them or none. -/
  push : η → Bytes → σ → Except DeviceError η × σ

/-- Octets that wait in front of an open destination. -/
structure WriteBuffer (η : Type) where
  handle : η
  pending : Bytes
  deriving DecidableEq, Repr

namespace WriteBuffer

variable {σ η : Type}

def ofHandle (handle : η) : WriteBuffer η := ⟨handle, []⟩

/-- Hand over what waits.  On failure it keeps waiting. -/
def flush (outlet : Outlet σ η) (buffer : WriteBuffer η) (world : σ) :
    Except DeviceError Unit × WriteBuffer η × σ :=
  if buffer.pending.isEmpty then (.ok (), buffer, world)
  else
    match outlet.push buffer.handle buffer.pending world with
    | (.ok handle, world) => (.ok (), ⟨handle, []⟩, world)
    | (.error error, world) => (.error error, buffer, world)

/-- Take a piece that does not fit into what is free of a buffer of the given capacity. -/
def overflow (outlet : Outlet σ η) (capacity : Nat) (buffer : WriteBuffer η) (piece : Bytes)
    (world : σ) : Except DeviceError Unit × WriteBuffer η × σ :=
  if piece.length < capacity then (.ok (), { buffer with pending := buffer.pending ++ piece }, world)
  else
    match outlet.push buffer.handle piece world with
    | (.ok handle, world) => (.ok (), { buffer with handle }, world)
    | (.error error, world) => (.error error, buffer, world)

/-- Take one piece.  What waits is handed over first if the piece does not fit behind it, and a
piece as large as the buffer is handed over directly. -/
def write (outlet : Outlet σ η) (capacity : Nat) (buffer : WriteBuffer η) (piece : Bytes)
    (world : σ) : Except DeviceError Unit × WriteBuffer η × σ :=
  let free := capacity - buffer.pending.length
  if piece.length < free then
    (.ok (), { buffer with pending := buffer.pending ++ piece }, world)
  else if piece.length = free then overflow outlet capacity buffer piece world
  else
    match flush outlet buffer world with
    | (.ok (), buffer, world) => overflow outlet capacity buffer piece world
    | (.error error, buffer, world) => (.error error, buffer, world)

/-- Take pieces up to the first that fails. -/
def writeAll (outlet : Outlet σ η) (capacity : Nat) (buffer : WriteBuffer η) :
    List Bytes → σ → Except DeviceError Unit × WriteBuffer η × σ
  | [], world => (.ok (), buffer, world)
  | piece :: pieces, world =>
      match write outlet capacity buffer piece world with
      | (.ok (), buffer, world) => writeAll outlet capacity buffer pieces world
      | (.error error, buffer, world) => (.error error, buffer, world)

end WriteBuffer

structure MemoryFile where
  denied : Bool
  /-- The most octets it holds, if there is a limit. -/
  limit : Option Nat
  octets : Bytes
  deriving Repr

namespace MemoryFile

/-- Take octets unless they exceed the limit. -/
def push (file : MemoryFile) (octets : Bytes) : Except DeviceError MemoryFile :=
  let held := file.octets ++ octets
  match file.limit with
  | none => .ok { file with octets := held }
  | some limit =>
      if limit < held.length then .error (.other "disk full") else .ok { file with octets := held }

/-- The destination with a number among destinations in memory. -/
def outlet (index : Nat) : Outlet (List MemoryFile) Nat where
  acquire files :=
    match files[index]? with
    | some file => if file.denied then (.error (.other "read-only"), files) else (.ok index, files)
    | none => (.error .notFound, files)
  push handle octets files :=
    match files[handle]? with
    | some file =>
        match file.push octets with
        | .ok file => (.ok handle, files.set handle file)
        | .error error => (.error error, files)
    | none => (.error .notFound, files)

end MemoryFile
end TileBindery
