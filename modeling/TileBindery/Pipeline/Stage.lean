import TileBindery.Pipeline.Profile
import TileBindery.Settings.Basic
import TileBindery.Spill.Sorter

/-!
# Stages

A stage is a named piece of work that feeds features to the sorter.  The stages of a build share its
sorter and a node table.  A stage that reads a source is left out when the profile does not use the
source.
-/

namespace TileBindery

/-- What the stages of a build act on, in a world that also holds a state `σ` of their own. -/
structure BuildState (σ : Type) where
  disk : Disk
  sorter : Sorter
  /-- The node table of the build. -/
  nodes : NodeTable
  /-- What else stages and profile act on. -/
  own : σ
  deriving DecidableEq

namespace BuildState

variable {σ : Type}

/-- The result of an operation with the state it leaves behind. -/
abbrev Outcome (σ : Type) := Except TaskError Unit × BuildState σ

def emit [Codec] (state : BuildState σ) (feature : Feature) : Outcome σ :=
  let (result, sorter, disk) := state.sorter.add feature state.disk
  (result.mapError .sort, { state with sorter, disk })

/-- Add an entry to the node table. -/
def put (state : BuildState σ) (id value : UInt64) : Outcome σ :=
  let (result, nodes, disk) := state.nodes.put id value state.disk
  (result.mapError .nodes, { state with nodes, disk })

def finishNodes (state : BuildState σ) : Outcome σ :=
  let (result, nodes, disk) := state.nodes.finish state.disk
  (result.mapError .nodes, { state with nodes, disk })

/-- The value of an identifier in the node table. -/
def node? (state : BuildState σ) (id : UInt64) : Except TaskError (Option UInt64) :=
  (state.nodes.get? id state.disk).mapError .nodes

/-- Act on items in order, up to the first that fails. -/
def forEach {α : Type} (act : BuildState σ → α → Outcome σ) : List α → BuildState σ → Outcome σ
  | [], state => (.ok (), state)
  | item :: rest, state =>
      match act state item with
      | (.error error, state) => (.error error, state)
      | (.ok (), state) => forEach act rest state

end BuildState

/-- What a running stage knows of the build. -/
structure StageContext (σ : Type) where
  stage : String
  settings : Settings
  profile : Profile σ

abbrev Task (σ : Type) := StageContext σ → BuildState σ → BuildState.Outcome σ

inductive StageKind where
  | always
  /-- When the profile uses the source of the stage's name. -/
  | source
  deriving DecidableEq, Repr

structure Stage (σ : Type) where
  name : String
  /-- What the stage does, for its reader. -/
  description : String
  kind : StageKind
  /-- Names and descriptions of parts of the stage. -/
  substages : List (String × String)
  task : Task σ

/-- Totals of the stages of a build. -/
structure StageTally where
  ran : Nat
  skipped : Nat
  deriving DecidableEq, Repr

namespace Stage

variable {σ : Type}

/-- The stage is left out under a profile. -/
def isSkipped (profile : Profile σ) (stage : Stage σ) : Bool :=
  stage.kind = .source && !profile.usesSource stage.name

/-- Run stages in order, up to the first that fails. -/
def runAll (settings : Settings) (profile : Profile σ) :
    List (Stage σ) → BuildState σ → Except PipelineError StageTally × BuildState σ
  | [], state => (.ok ⟨0, 0⟩, state)
  | stage :: rest, state =>
      if stage.isSkipped profile then
        let (result, state) := runAll settings profile rest state
        (result.map fun tally => { tally with skipped := tally.skipped + 1 }, state)
      else
        match stage.task ⟨stage.name, settings, profile⟩ state with
        | (.error error, state) => (.error (.stage stage.name error), state)
        | (.ok (), state) =>
            let (result, state) := runAll settings profile rest state
            (result.map fun tally => { tally with ran := tally.ran + 1 }, state)

end Stage
end TileBindery
