import TileBindery.Disk.Basic
import TileBindery.Pipeline.Error
import TileBindery.Settings.Toml

/-!
# Files of settings

Settings are kept in files as TOML.  Errors in the settings of a file name the file.
-/

namespace TileBindery
namespace Settings

def readText (path : String) (disk : Disk) : Except DeviceError (List Char) :=
  match disk.read (Path.ofText path) with
  | .error error => .error error
  | .ok octets =>
      (Utf8.decode octets).mapError fun _ => .other "stream did not contain valid UTF-8"

/-- Read settings on a machine with a number of cores. -/
def load (cores : Nat) (path : String) (disk : Disk) : Except PipelineError Settings :=
  Except.mapError .settings <|
    match readText path disk with
    | .error error => .error (.unreadable path error)
    | .ok text => (ofToml cores text).mapError (.located · path)

/-- Write settings to the file at a path, replacing what it holds. -/
def save (settings : Settings) (path : String) (disk : Disk) : Except PipelineError Disk :=
  match settings.toToml with
  | .error error => .error (.settings error)
  | .ok text => (disk.store (Path.ofText path) (Utf8.encode text)).mapError .device

end Settings
end TileBindery
