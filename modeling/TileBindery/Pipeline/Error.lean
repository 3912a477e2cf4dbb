import TileBindery.NodeTable
import TileBindery.Settings.Error

/-!
# Pipeline errors

What ends a build, with its wording.  The work of stages and profiles fails for reasons of its own,
which a build error carries with the stage or the tile they belong to.
-/

namespace TileBindery

/-- Reasons why the work of a stage or a profile fails. -/
inductive TaskError where
  /-- The sorter refuses a feature. -/
  | sort (error : SortError)
  /-- The node table refuses an operation. -/
  | nodes (error : NodeTableError)
  | tile (error : TileError)
  /-- A failure that the work describes itself. -/
  | other (text : String)
  deriving DecidableEq, Repr

def TaskError.message : TaskError → String
  | .sort error => error.message
  | .nodes error => error.message
  | .tile error => error.message
  | .other text => text

inductive PipelineError where
  | settings (error : SettingsError)
  /-- The pipeline has been run before. -/
  | alreadyRan
  /-- A stage whose name is taken. -/
  | duplicateStage (name : String)
  /-- An output that exists and is not to be replaced. -/
  | outputExists (path : String)
  /-- A file or directory refuses an operation. -/
  | device (error : DeviceError)
  /-- Features cannot be sorted or grouped. -/
  | sort (error : SortError)
  /-- The archive cannot be written. -/
  | archive (error : ArchiveError)
  /-- The node table cannot be removed. -/
  | nodes (error : NodeTableError)
  | stage (name : String) (error : TaskError)
  | render (tile : Tile) (error : TaskError)
  deriving DecidableEq, Repr

def PipelineError.message : PipelineError → String
  | .settings error => "Configuration error: " ++ error.message
  | .alreadyRan => "Illegal state: Pipeline already ran"
  | .duplicateStage name => "Duplicate stage name: " ++ name
  | .outputExists path =>
      "Output " ++ path ++ " already exists; enable force_overwrite to replace it"
  | .device error => "IO error: " ++ error.message
  | .sort error => "Sort failed: " ++ error.message
  | .archive error => "Archive write failed: " ++ error.message
  | .nodes error => "Node store failed: " ++ error.message
  | .stage name error => "Stage " ++ name ++ " failed: " ++ error.message
  | .render tile error => "Rendering tile " ++ tile.text ++ " failed: " ++ error.message

end TileBindery
