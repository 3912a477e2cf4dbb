import TileBindery.Pipeline.Stage

/-!
# Pipelines

A pipeline collects what a build needs: settings, stages, a profile, an output and an input.  The
names of its stages differ.
-/

namespace TileBindery

/-- A build that is being prepared, or has been run. -/
structure Pipeline (σ : Type) where
  settings : Settings
  /-- Stages in the order in which they run. -/
  stages : List (Stage σ)
  profile : Option (Profile σ)
  output : Option String
  /-- Replace an archive that exists, whatever the settings say. -/
  overwrite : Bool
  /-- Path of the main input, whose size tunes the sorter. -/
  input : Option String
  ran : Bool

namespace Pipeline

variable {σ : Type}

/-- A pipeline with settings and nothing else. -/
def ofSettings (settings : Settings) : Pipeline σ := ⟨settings, [], none, none, false, none, false⟩

/-- Add a stage, whose name must not be taken. -/
def addStage (pipeline : Pipeline σ) (stage : Stage σ) : Except PipelineError (Pipeline σ) :=
  if pipeline.stages.any fun other => other.name = stage.name then
    .error (.duplicateStage stage.name)
  else .ok { pipeline with stages := pipeline.stages ++ [stage] }

/-- Describe further parts of a stage. -/
def describe (pipeline : Pipeline σ) (name : String) (substages : List (String × String)) :
    Except PipelineError (Pipeline σ) :=
  if pipeline.stages.any fun stage => stage.name = name then
    .ok { pipeline with
      stages := pipeline.stages.map fun stage =>
        if stage.name = name then { stage with substages := stage.substages ++ substages }
        else stage }
  else .error (.settings (.unknownStage name))

def setProfile (pipeline : Pipeline σ) (profile : Profile σ) : Pipeline σ :=
  { pipeline with profile := some profile }

/-- Write the archive to a path.  Whether it replaces an archive there is up to the settings. -/
def setOutput (pipeline : Pipeline σ) (path : String) : Pipeline σ :=
  { pipeline with output := some path, overwrite := false }

/-- Write the archive to a path and replace an archive there. -/
def overwriteOutput (pipeline : Pipeline σ) (path : String) : Pipeline σ :=
  { pipeline with output := some path, overwrite := true }

def setInput (pipeline : Pipeline σ) (path : String) : Pipeline σ :=
  { pipeline with input := some path }

end Pipeline
end TileBindery
