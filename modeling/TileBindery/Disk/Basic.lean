import TileBindery.Device
import TileBindery.Disk.Path

/-!
# The disk

A tree of directories and files.  A directory entry of a file refers to the file by number, so that
an open file lives on after its name is gone.  A path is followed part by part through directories
that exist; every operation on one name either succeeds with a new disk or refuses, and a refused
operation changes nothing.
-/

namespace TileBindery

inductive DiskEntry where
  | directory
  | file (number : Nat)
  deriving DecidableEq, Repr

/-- Directories, files and contents. -/
structure Disk where
  /-- Everything below the root, by location. -/
  entries : List (Location × DiskEntry)
  /-- Contents of all files ever created, by number. -/
  files : List Bytes
  deriving DecidableEq, Repr

/-- What the last part of a path is. -/
inductive PathEnd where
  /-- A name in the directory that the path has led to. -/
  | name (name : String)
  | here
  | above
  deriving DecidableEq, Repr

/-- The meaning of a part at the end of a path. -/
def PathEnd.ofPart (part : String) : PathEnd :=
  if part = "." then .here else if part = ".." then .above else .name part

/-- An open file: its number and where the next octet goes, which for a file opened for appending
is always its end. -/
structure OpenFile where
  number : Nat
  /-- Position of the next write, or `none` for the end of the file. -/
  position : Option Nat
  deriving DecidableEq, Repr

namespace Disk

/-- A disk with nothing below its root. -/
def empty : Disk := ⟨[], []⟩

/-- The entry at a location.  The root is a directory. -/
def lookup (disk : Disk) : Location → Option DiskEntry
  | [] => some .directory
  | location => disk.entries.lookup location

def bind (disk : Disk) (location : Location) (entry : DiskEntry) : Disk :=
  { disk with
    entries := (location, entry) :: disk.entries.filter fun other => other.1 ≠ location }

/-- Everything strictly below a location, by the names that lead to it from there. -/
def below (disk : Disk) (location : Location) : List (Location × DiskEntry) :=
  disk.entries.filterMap fun entry =>
    if location.isPrefixOf entry.1 && location.length < entry.1.length then
      some (entry.1.drop location.length, entry.2)
    else none

/-- Remove the entry at a location. -/
def unbind (disk : Disk) (location : Location) : Disk :=
  { disk with entries := disk.entries.filter fun other => other.1 ≠ location }

/-- Remove everything strictly below a location. -/
def clear (disk : Disk) (location : Location) : Disk :=
  { disk with
    entries := disk.entries.filter fun other =>
      !(location.isPrefixOf other.1 && location.length < other.1.length) }

def contents (disk : Disk) (number : Nat) : Bytes := (disk.files[number]?).getD []

/-- Replace the contents of a file. -/
def setContents (disk : Disk) (number : Nat) (octets : Bytes) : Disk :=
  { disk with files := disk.files.set number octets }

def addFile (disk : Disk) (location : Location) (octets : Bytes) : Disk :=
  { (disk.bind location (.file disk.files.length)) with files := disk.files ++ [octets] }

def maxName : Nat := 255

def maxPath : Nat := 4095

/-- What a name stands for in a directory. -/
def look (disk : Disk) (directory : Location) (name : String) :
    Except DeviceError (Option DiskEntry) :=
  if maxName < name.utf8ByteSize then .error .invalidFilename
  else .ok (disk.lookup (directory ++ [name]))

/-- Go on from a directory by one part of a path. -/
def enter (disk : Disk) (directory : Location) (part : String) : Except DeviceError Location :=
  if part = "." then .ok directory
  else if part = ".." then .ok directory.dropLast
  else
    match disk.look directory part with
    | .error error => .error error
    | .ok none => .error .notFound
    | .ok (some (.file _)) => .error .notADirectory
    | .ok (some .directory) => .ok (directory ++ [part])

/-- Go on from a directory up to the last part of a path. -/
def walk (disk : Disk) (directory : Location) : List String → Except DeviceError (Location × PathEnd)
  | [] => .ok (directory, .here)
  | [part] => .ok (directory, .ofPart part)
  | part :: rest =>
      match disk.enter directory part with
      | .error error => .error error
      | .ok next => walk disk next rest

/-- The directory in which the last part of a path is looked for. -/
def approach (disk : Disk) (path : Path) : Except DeviceError (Location × PathEnd) :=
  if path.hasNul then .error .nulInPath
  else if maxPath < path.size then .error .invalidFilename
  else disk.walk [] path.parts

/-- What stands at a path, with its location.  A path with a slash at its end leads to directories
only. -/
def find (disk : Disk) (path : Path) : Except DeviceError (Location × DiskEntry) :=
  match disk.approach path with
  | .error error => .error error
  | .ok (directory, .here) => .ok (directory, .directory)
  | .ok (directory, .above) => .ok (directory.dropLast, .directory)
  | .ok (directory, .name name) =>
      match disk.look directory name with
      | .error error => .error error
      | .ok none => .error .notFound
      | .ok (some .directory) => .ok (directory ++ [name], .directory)
      | .ok (some (.file number)) =>
          if path.slash then .error .notADirectory else .ok (directory ++ [name], .file number)

def stat (disk : Disk) (path : Path) : Except DeviceError DiskEntry := (disk.find path).map (·.2)

def holds (disk : Disk) (path : Path) : Bool := (disk.find path).isOk

def holdsDirectory (disk : Disk) (path : Path) : Bool :=
  match disk.stat path with
  | .ok .directory => true
  | _ => false

/-- Location and number of the file at a path. -/
def findFile (disk : Disk) (path : Path) : Except DeviceError (Location × Nat) :=
  match disk.find path with
  | .error error => .error error
  | .ok (_, .directory) => .error .isADirectory
  | .ok (location, .file number) => .ok (location, number)

/-- The number of the file at a path. -/
def fileAt (disk : Disk) (path : Path) : Except DeviceError Nat := (disk.findFile path).map (·.2)

/-- The number of the file at a path, whose contents are mapped into memory.  A directory can be
opened as well, but it has no contents. -/
def mapFile (disk : Disk) (path : Path) : Except DeviceError Nat :=
  match disk.find path with
  | .error error => .error error
  | .ok (_, .directory) => .error .unmappable
  | .ok (_, .file number) => .ok number

def findDirectory (disk : Disk) (path : Path) : Except DeviceError Location :=
  match disk.find path with
  | .error error => .error error
  | .ok (_, .file _) => .error .notADirectory
  | .ok (location, .directory) => .ok location

/-- The place where a path creates a file, and what stands there.  A slash at the end of the path
asks for a directory. -/
def slot (disk : Disk) (path : Path) : Except DeviceError (Location × Option DiskEntry) :=
  match disk.approach path with
  | .error error => .error error
  | .ok (directory, .here) => .ok (directory, some .directory)
  | .ok (directory, .above) => .ok (directory.dropLast, some .directory)
  | .ok (directory, .name name) =>
      if path.slash then .error .isADirectory
      else (disk.look directory name).map fun entry => (directory ++ [name], entry)

/-- Create a directory, which must not exist. -/
def makeDirectory (disk : Disk) (path : Path) : Except DeviceError Disk :=
  match disk.approach path with
  | .error error => .error error
  | .ok (directory, .name name) =>
      match disk.look directory name with
      | .error error => .error error
      | .ok none => .ok (disk.bind (directory ++ [name]) .directory)
      | .ok (some _) => .error .alreadyExists
  | .ok _ => .error .alreadyExists

/-- Create a directory unless it exists, where the directory above it is missing after the ones
`above` that path.  The directories created before a failure stay. -/
def makeAll (disk : Disk) (path : Path) (above : List Path) : Except DeviceError Unit × Disk :=
  match disk.makeDirectory path with
  | .ok disk => (.ok (), disk)
  | .error error =>
      if disk.holdsDirectory path then (.ok (), disk)
      else if error = .notFound then
        match above with
        | [] => (.error .notFound, disk)
        | next :: rest =>
            match makeAll disk next rest with
            | (.error error, disk) => (.error error, disk)
            | (.ok (), disk) =>
                match disk.makeDirectory path with
                | .ok disk => (.ok (), disk)
                | .error error =>
                    if disk.holdsDirectory path then (.ok (), disk) else (.error error, disk)
      else (.error error, disk)

/-- Create a directory unless it exists, after the directories above it that are missing. -/
def makeDirectories (disk : Disk) (path : Path) : Except DeviceError Unit × Disk :=
  disk.makeAll path path.ancestors

/-- Create and open a file, which must not exist. -/
def createFile (disk : Disk) (path : Path) : Except DeviceError (OpenFile × Disk) :=
  match disk.slot path with
  | .error error => .error error
  | .ok (_, some _) => .error .alreadyExists
  | .ok (location, none) => .ok (⟨disk.files.length, some 0⟩, disk.addFile location [])

/-- Open a file for appending, creating it if it is missing. -/
def appendFile (disk : Disk) (path : Path) : Except DeviceError (OpenFile × Disk) :=
  match disk.slot path with
  | .error error => .error error
  | .ok (_, some .directory) => .error .isADirectory
  | .ok (_, some (.file number)) => .ok (⟨number, none⟩, disk)
  | .ok (location, none) => .ok (⟨disk.files.length, none⟩, disk.addFile location [])

/-- Open a file for writing from its start, emptying or creating it. -/
def openEmpty (disk : Disk) (path : Path) : Except DeviceError (OpenFile × Disk) :=
  match disk.slot path with
  | .error error => .error error
  | .ok (_, some .directory) => .error .isADirectory
  | .ok (_, some (.file number)) => .ok (⟨number, some 0⟩, disk.setContents number [])
  | .ok (location, none) => .ok (⟨disk.files.length, some 0⟩, disk.addFile location [])

/-- `octets` written over `old` from `position` on; a gap is filled with zeros. -/
def overwrite (old : Bytes) (position : Nat) (octets : Bytes) : Bytes :=
  old.take position ++ List.replicate (position - old.length) 0 ++ octets ++
    old.drop (position + octets.length)

/-- `octets` cut to a length; missing ones are zeros. -/
def resize (octets : Bytes) (length : Nat) : Bytes :=
  octets.take length ++ List.replicate (length - octets.length) 0

def write (disk : Disk) (file : OpenFile) (octets : Bytes) : OpenFile × Disk :=
  let old := disk.contents file.number
  match file.position with
  | none => (file, disk.setContents file.number (old ++ octets))
  | some position =>
      ({ file with position := some (position + octets.length) },
        disk.setContents file.number (overwrite old position octets))

def read (disk : Disk) (path : Path) : Except DeviceError Bytes :=
  (disk.fileAt path).map disk.contents

/-- Give the file at a path these contents, creating it if it is missing. -/
def store (disk : Disk) (path : Path) (octets : Bytes) : Except DeviceError Disk :=
  (disk.openEmpty path).map fun opened => (opened.2.write opened.1 octets).2

/-- Change the contents of the file at a path, which has to exist. -/
def modify (disk : Disk) (path : Path) (change : Bytes → Bytes) : Except DeviceError Disk :=
  (disk.fileAt path).map fun number => disk.setContents number (change (disk.contents number))

/-- Move a file to a path, replacing a file there. -/
def rename (disk : Disk) (source target : Path) : Except DeviceError Disk :=
  match disk.findFile source, disk.slot target with
  | .error error, _ => .error error
  | .ok _, .error error => .error error
  | .ok _, .ok (_, some .directory) => .error .isADirectory
  | .ok (location, number), .ok (place, _) =>
      .ok ((disk.unbind location).bind place (.file number))

def removeFile (disk : Disk) (path : Path) : Except DeviceError Disk :=
  (disk.findFile path).map fun found => disk.unbind found.1

/-- Remove a file if there is one, whatever stands in the way. -/
def dropFile (disk : Disk) (path : Path) : Disk :=
  match disk.removeFile path with
  | .ok disk => disk
  | .error _ => disk

def removeDirectory (disk : Disk) (path : Path) : Except DeviceError Disk :=
  match disk.approach path with
  | .error error => .error error
  | .ok (_, .here) => .error .invalidInput
  | .ok (_, .above) => .error .directoryNotEmpty
  | .ok (_, .name _) =>
      match disk.findDirectory path with
      | .error error => .error error
      | .ok location =>
          if (disk.below location).isEmpty then .ok (disk.unbind location)
          else .error .directoryNotEmpty

/-- Remove everything below a directory and then the directory.  What has been removed before a
failure stays removed; that the path leads nowhere once everything below it is gone is no
failure. -/
def removeTree (disk : Disk) (path : Path) : Except DeviceError Unit × Disk :=
  match disk.findDirectory path with
  | .error error => (.error error, disk)
  | .ok location =>
      let emptied := disk.clear location
      match emptied.removeDirectory path with
      | .ok disk => (.ok (), disk)
      | .error .notFound => (.ok (), emptied)
      | .error error => (.error error, emptied)

/-- Names in the directory at a path, in ascending order. -/
def names (disk : Disk) (path : Path) : Except DeviceError (List String) :=
  (disk.findDirectory path).map fun location =>
    ((disk.below location).filterMap fun entry =>
      match entry.1 with
      | [name] => some name
      | _ => none).mergeSort fun a b => decide (a ≤ b)

/-- Everything below the directory at a path: paths that go on from it, with the contents of
files. -/
def tree (disk : Disk) (path : Path) : Except DeviceError (List (String × Option Bytes)) :=
  (disk.findDirectory path).map fun location =>
    (disk.below location).map fun entry =>
      let path := "/".intercalate entry.1
      match entry.2 with
      | .directory => (path ++ "/", none)
      | .file number => (path, some (disk.contents number))

end Disk
end TileBindery
