import TileBindery.Buffer
import TileBindery.Disk.Basic

/-!
# Files as destinations

A destination on the disk is a new file, or a file that is written on at its end.
-/

namespace TileBindery
namespace Disk

/-- The file of a path: created, or opened for appending. -/
def outlet (append : Bool) (path : String) : Outlet Disk OpenFile where
  acquire disk :=
    let path := Path.ofText path
    match if append then disk.appendFile path else disk.createFile path with
    | .ok (file, disk) => (.ok file, disk)
    | .error error => (.error error, disk)
  push file octets disk :=
    let (file, disk) := disk.write file octets
    (.ok file, disk)

end Disk
end TileBindery
