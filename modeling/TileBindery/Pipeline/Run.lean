import TileBindery.Pipeline.Basic
import TileBindery.Pipeline.TileWriting

/-!
# Running a pipeline

A run checks everything before it touches the disk, clears the output, and then works in a directory
of its own: stages fill the sorter, the sorted features are grouped by tile, rendered and archived.
However the run ends, its directory is removed with all that is in it.  A pipeline runs once.
-/

namespace TileBindery

structure RunSummary where
  stagesRun : Nat
  stagesSkipped : Nat
  /-- Features added to the sorter. -/
  features : Nat
  /-- Chunk files written by the sorter. -/
  chunks : Nat
  tilesWritten : Nat
  /-- Tiles left out for having no data. -/
  tilesSkipped : Nat
  deriving DecidableEq, Repr

/-- What a run has settled before it touches the disk. -/
structure RunPlan where
  spill : SpillConfig
  archive : ArchiveConfig
  deriving DecidableEq, Repr

namespace Pipeline

variable {σ : Type}

/-- What a run cannot do without: a profile, an output and a stage. -/
def essentials (pipeline : Pipeline σ) : Except PipelineError (Profile σ × String) :=
  if pipeline.ran then .error .alreadyRan
  else
    match pipeline.profile, pipeline.output with
    | none, _ => .error (.settings .noProfile)
    | some _, none => .error (.settings .noOutput)
    | some profile, some output =>
        if pipeline.stages.isEmpty then .error (.settings .noStages) else .ok (profile, output)

/-- The size of the main input, if there is one. -/
def inputSize (pipeline : Pipeline σ) (disk : Disk) : Except SettingsError (Option Nat) :=
  match pipeline.input with
  | none => .ok none
  | some path =>
      match disk.stat (Path.ofText path) with
      | .error error => .error (.noInput path error)
      | .ok .directory => .ok (some 0)
      | .ok (.file number) => .ok (some (disk.contents number).length)

/-- Check the settings and settle the options of sorter and archive. -/
def plan (pipeline : Pipeline σ) (disk : Disk) : Except SettingsError RunPlan := do
  pipeline.settings.check
  let size ← pipeline.inputSize disk
  let archive ← pipeline.settings.archiveConfig
  return ⟨pipeline.settings.spillConfig size, archive⟩

/-- Remove an entry at a path, a directory with everything below it. -/
def remove (entry : DiskEntry) (path : Path) (disk : Disk) : Except DeviceError Unit × Disk :=
  match entry with
  | .directory => disk.removeTree path
  | .file _ =>
      match disk.removeFile path with
      | .error error => (.error error, disk)
      | .ok disk => (.ok (), disk)

/-- Remove what stands at paths, or refuse the first path at which something stands. -/
def clear (force : Bool) : List String → Disk → Except PipelineError Unit × Disk
  | [], disk => (.ok (), disk)
  | path :: rest, disk =>
      match disk.stat (Path.ofText path) with
      | .error _ => clear force rest disk
      | .ok entry =>
          if ¬force then (.error (.outputExists path), disk)
          else
            match remove entry (Path.ofText path) disk with
            | (.error error, disk) => (.error (.device error), disk)
            | (.ok (), disk) => clear force rest disk

/-- Make room for the archive, unless it is written behind what stands there. -/
def clearOutput (pipeline : Pipeline σ) (output : String) (archive : ArchiveConfig) (disk : Disk) :
    Except PipelineError Unit × Disk :=
  if archive.append then (.ok (), disk)
  else
    clear (pipeline.overwrite || pipeline.settings.forceOverwrite)
      ((List.range archive.shards).map (Routing.shardPath output)) disk

/-- The name of a run's directory, by what tells it from others. -/
def directoryName (ending : String) : String := "tilepress-" ++ ending

/-- A way to tell the directory of a run from what has a name already.  Which letters and digits do
it is up to a library. -/
class Naming where
  /-- What a name ends with that differs from others. -/
  ending : List String → String
  alphanumeric (avoid : List String) : ∀ c ∈ (ending avoid).toList, c.isAlphanum
  free (avoid : List String) : directoryName (ending avoid) ∉ avoid

/-- The parts of the paths that an archive is written to. -/
def outputParts (output : String) (archive : ArchiveConfig) : List String :=
  (List.range archive.shards).flatMap fun index =>
    (Path.ofText (Routing.shardPath output index)).parts

/-- Create the directory of a run, and the directories above it.  Gives its path.  Its name differs
from the parts to avoid, as no path that was given before leads into it. -/
def createDirectory [Naming] (workspace : String) (avoid : List String) (disk : Disk) :
    Except PipelineError String × Disk :=
  match disk.makeDirectories (Path.ofText workspace) with
  | (.error error, disk) => (.error (.device error), disk)
  | (.ok (), disk) =>
      let taken := (disk.names (Path.ofText workspace)).toOption.getD []
      let path := Path.join workspace (directoryName (Naming.ending (taken ++ avoid)))
      match disk.makeDirectory (Path.ofText path) with
      | .error error => (.error (.device error), disk)
      | .ok disk => (.ok path, disk)

/-- Group sorted features by tile and write the archive. -/
def writeArchive (settings : Settings) (profile : Profile σ) (output : String)
    (config : ArchiveConfig) (merge : Merge) (disk : Disk) :
    Except PipelineError TileCounts × Disk :=
  match ArchiveWriter.ofPath output config disk with
  | (.error error, disk) => (.error (.archive error), disk)
  | (.ok writer, disk) =>
      let (features, _, disk) := merge.drain disk
      let (result, writer, disk) :=
        TileWriting.writeTiles (Grouping.groups features) profile
          ⟨settings.batchSize, settings.emitEmptyTiles⟩ writer disk
      (result.map (·.1), writer.release disk)

/-- Give up what only the stages needed, then sort and archive what they left in the sorter. -/
def archive [Codec] (settings : Settings) (profile : Profile σ) (output : String)
    (config : ArchiveConfig) (tally : StageTally) (state : BuildState σ) :
    Except PipelineError RunSummary × Disk × σ :=
  let own := profile.release state.own
  match state.nodes.delete state.disk with
  | (.error error, disk) => (.error (.nodes error), disk, own)
  | (.ok (), disk) =>
      match state.sorter.sort disk with
      | (.error error, _, disk) => (.error (.sort error), disk, own)
      | (.ok merge, sorter, disk) =>
          let (result, disk) := writeArchive settings profile output config merge disk
          let counters := sorter.counters
          (result.map fun counts =>
            { stagesRun := tally.ran
              stagesSkipped := tally.skipped
              features := counters.featuresAdded
              chunks := counters.chunksSpilled
              tilesWritten := counts.written
              tilesSkipped := counts.skipped },
            disk, own)

/-- The state that stages begin with: an empty node table and a fresh sorter in a directory. -/
def begin (spill : SpillConfig) (directory : String) (disk : Disk) (own : σ) :
    Except PipelineError (BuildState σ) × Disk :=
  match NodeTable.create (Path.join directory "node.db") disk with
  | (.error error, disk) => (.error (.nodes error), disk)
  | (.ok nodes, disk) =>
      match Sorter.create (Path.join directory "feature.db") spill disk with
      | (.error error, disk) => (.error (.sort error), disk)
      | (.ok sorter, disk) => (.ok ⟨disk, sorter, nodes, own⟩, disk)

/-- The part of a run that takes place in its directory. -/
def runIn [Codec] (pipeline : Pipeline σ) (profile : Profile σ) (output : String) (plan : RunPlan)
    (directory : String) (disk : Disk) (own : σ) : Except PipelineError RunSummary × Disk × σ :=
  match begin plan.spill directory disk own with
  | (.error error, disk) => (.error error, disk, own)
  | (.ok state, _) =>
      match Stage.runAll pipeline.settings profile pipeline.stages state with
      | (.error error, state) => (.error error, state.disk, state.own)
      | (.ok tally, state) => archive pipeline.settings profile output plan.archive tally state

/-- The part of a run behind all checks: clear the output and work in a directory, which is removed
in the end. -/
def execute [Codec] [Naming] (pipeline : Pipeline σ) (profile : Profile σ) (output : String)
    (plan : RunPlan) (disk : Disk) (own : σ) : Except PipelineError RunSummary × Disk × σ :=
  match pipeline.clearOutput output plan.archive disk with
  | (.error error, disk) => (.error error, disk, own)
  | (.ok (), disk) =>
      match createDirectory pipeline.settings.workspace (outputParts output plan.archive) disk with
      | (.error error, disk) => (.error error, disk, own)
      | (.ok directory, disk) =>
          let (result, disk, own) := pipeline.runIn profile output plan directory disk own
          (result, (disk.removeTree (Path.ofText directory)).2, own)

def run [Codec] [Naming] (pipeline : Pipeline σ) (disk : Disk) (own : σ) :
    Except PipelineError RunSummary × Pipeline σ × Disk × σ :=
  match pipeline.essentials with
  | .error error => (.error error, pipeline, disk, own)
  | .ok (profile, output) =>
      let after := { pipeline with ran := true }
      match pipeline.plan disk with
      | .error error => (.error (.settings error), after, disk, own)
      | .ok plan =>
          let (result, disk, own) := pipeline.execute profile output plan disk own
          (result, after, disk, own)

end Pipeline
end TileBindery
