import TileBindery.Archive.Error
import TileBindery.Spill.Error

/-!
# Configuration errors

Reasons why a build cannot be set up, with their wording.
-/

namespace TileBindery

/-- Reasons why a build cannot be set up. -/
inductive SettingsError where
  | zeroThreads
  | zeroBatch
  /-- Settings of the sorter that make no sense. -/
  | spill (error : SpillConfigError)
  /-- An archive option that makes no sense. -/
  | archive (error : ArchiveError)
  /-- A text that does not hold settings. -/
  | malformed
  /-- A number that a text of settings cannot hold. -/
  | unwritableNumber
  /-- A file of settings that cannot be read. -/
  | unreadable (path : String) (error : DeviceError)
  /-- An error in the settings of a file. -/
  | located (error : SettingsError) (path : String)
  | noProfile
  | noOutput
  | noStages
  /-- The input file cannot be looked at. -/
  | noInput (path : String) (error : DeviceError)
  /-- A stage that has not been registered. -/
  | unknownStage (name : String)
  deriving DecidableEq, Repr

/-- The wording of a configuration error. -/
def SettingsError.message : SettingsError → String
  | .zeroThreads => "threads must be at least 1"
  | .zeroBatch => "render_batch_size must be at least 1"
  | .spill error => error.message
  | .archive error => error.message
  | .malformed => "Failed to parse config: <toml>"
  | .unwritableNumber => "Failed to serialize config: out-of-range value for u64 type"
  | .unreadable path error => "Failed to read config file '" ++ path ++ "': " ++ error.message
  | .located error path => error.message ++ " (" ++ path ++ ")"
  | .noProfile => "No profile set"
  | .noOutput => "No output set"
  | .noStages => "No stages registered"
  | .noInput path error => "Cannot read input " ++ path ++ ": " ++ error.message
  | .unknownStage name => "No stage named " ++ name

end TileBindery
