import TileBindery.Pipeline.Run

/-!
# What a run executes

To see which tasks a run executes, every stage takes a note of its task: the stage's name, and how
the task ended.  The notes stand beside the state of stages and profile, where neither sees them, so
that a run with notes comes to the same as a run without.  The main statement says which notes a run
leaves.
-/

namespace TileBindery

/-- A task that has been executed. -/
structure Note where
  stage : String
  answer : Except TaskError Unit

variable {σ : Type}

/-! ### Taking notes -/

namespace BuildState

def withNotes (state : BuildState σ) (notes : List Note) : BuildState (σ × List Note) where
  disk := state.disk
  sorter := state.sorter
  nodes := state.nodes
  own := (state.own, notes)

def bare (state : BuildState (σ × List Note)) : BuildState σ where
  disk := state.disk
  sorter := state.sorter
  nodes := state.nodes
  own := state.own.1

end BuildState

namespace Profile

/-- A profile that leaves notes alone. -/
def noted (profile : Profile σ) : Profile (σ × List Note) where
  name := profile.name
  usesSource := profile.usesSource
  render := profile.render
  metadata := profile.metadata
  release := fun own => (profile.release own.1, own.2)

def bare (profile : Profile (σ × List Note)) : Profile σ where
  name := profile.name
  usesSource := profile.usesSource
  render := profile.render
  metadata := profile.metadata
  release := fun own => (profile.release (own, [])).1

end Profile

/-- A stage that takes a note of its task. -/
def Stage.noted (stage : Stage σ) : Stage (σ × List Note) where
  name := stage.name
  description := stage.description
  kind := stage.kind
  substages := stage.substages
  task := fun context state =>
    let (answer, after) :=
      stage.task ⟨context.stage, context.settings, context.profile.bare⟩ state.bare
    (answer, after.withNotes (state.own.2 ++ [⟨stage.name, answer⟩]))

namespace Pipeline

/-- A pipeline whose stages take notes. -/
def noted (pipeline : Pipeline σ) : Pipeline (σ × List Note) where
  settings := pipeline.settings
  stages := pipeline.stages.map Stage.noted
  profile := pipeline.profile.map Profile.noted
  output := pipeline.output
  overwrite := pipeline.overwrite
  input := pipeline.input
  ran := pipeline.ran

/-- The tasks that a run executes. -/
def notes [Codec] [Naming] (pipeline : Pipeline σ) (disk : Disk) (own : σ) : List Note :=
  (pipeline.noted.run disk (own, [])).2.2.2.2

end Pipeline

/-! ### Stages -/

/-- Stages have been executed in order, up to the first that fails. -/
structure Executed (profile : Profile σ) (stages : List (Stage σ))
    (result : Except PipelineError StageTally) (notes : List Note) : Prop where
  /-- None is left out but sources that the profile does not use. -/
  order : notes.map Note.stage <+:
    (stages.filter fun stage => !stage.isSkipped profile).map Stage.name
  /-- Nothing is executed behind a failure. -/
  stops : notes.Pairwise fun note _ => note.answer = .ok ()
  /-- All are executed and counted, or left out and counted. -/
  whole : ∀ tally, result = .ok tally →
    notes.length = (stages.filter fun stage => !stage.isSkipped profile).length ∧
      (∀ note ∈ notes, note.answer = .ok ()) ∧ tally.ran = notes.length ∧
      tally.ran + tally.skipped = stages.length

namespace Executed

variable {profile : Profile σ} {stage : Stage σ} {stages : List (Stage σ)} {notes : List Note}
  {result : Except PipelineError StageTally}

theorem of_error (profile : Profile σ) (stages : List (Stage σ)) (error : PipelineError) :
    Executed profile stages (.error error) [] :=
  ⟨List.nil_prefix, .nil, by simp⟩

theorem skip (executed : Executed profile stages result notes) (skipped : stage.isSkipped profile) :
    Executed profile (stage :: stages)
      (result.map fun tally => { tally with skipped := tally.skipped + 1 }) notes := by
  have left_out : (stage :: stages).filter (fun stage => !stage.isSkipped profile) =
      stages.filter fun stage => !stage.isSkipped profile :=
    List.filter_cons_of_neg (by simp [skipped])
  refine ⟨?_, executed.stops, fun tally done => ?_⟩
  · rw [left_out]
    exact executed.order
  · cases result with
    | error => cases done
    | ok front =>
        cases done
        obtain ⟨length, fine, ran, total⟩ := executed.whole front rfl
        rw [left_out]
        exact ⟨length, fine, ran, congrArg (· + 1) total⟩

theorem fail (unskipped : ¬stage.isSkipped profile) (stages : List (Stage σ)) (error : TaskError) :
    Executed profile (stage :: stages) (.error (.stage stage.name error))
      [⟨stage.name, .error error⟩] := by
  refine ⟨?_, List.pairwise_singleton .., fun tally done => by cases done⟩
  rw [List.filter_cons_of_pos (by simpa using unskipped)]
  exact List.prefix_append [stage.name] _

theorem run (executed : Executed profile stages result notes)
    (unskipped : ¬stage.isSkipped profile) :
    Executed profile (stage :: stages) (result.map fun tally => { tally with ran := tally.ran + 1 })
      (⟨stage.name, .ok ()⟩ :: notes) := by
  have executes : (stage :: stages).filter (fun stage => !stage.isSkipped profile) =
      stage :: stages.filter fun stage => !stage.isSkipped profile :=
    List.filter_cons_of_pos (by simpa using unskipped)
  refine ⟨?_, List.pairwise_cons.2 ⟨fun _ _ => rfl, executed.stops⟩, fun tally done => ?_⟩
  · rw [executes]
    exact List.cons_prefix_cons.2 ⟨rfl, executed.order⟩
  · cases result with
    | error => cases done
    | ok front =>
        cases done
        obtain ⟨length, fine, ran, total⟩ := executed.whole front rfl
        rw [executes]
        refine ⟨congrArg (· + 1) length, List.forall_mem_cons.2 ⟨rfl, fine⟩,
          congrArg (· + 1) ran, ?_⟩
        rw [List.length_cons, ← total, Nat.add_right_comm]

end Executed

namespace Stage

theorem runAll_noted (settings : Settings) (profile : Profile σ) (stages : List (Stage σ))
    (state : BuildState σ) (notes : List Note) :
    ∃ taken,
      runAll settings profile.noted (stages.map noted) (state.withNotes notes) =
        ((runAll settings profile stages state).1,
          (runAll settings profile stages state).2.withNotes (notes ++ taken)) ∧
      Executed profile stages (runAll settings profile stages state).1 taken := by
  -- for any notes in front, as every task leaves one to the stages behind it
  induction stages generalizing state notes with
  | nil =>
      refine ⟨[], ?_, List.nil_prefix, .nil, ?_⟩
      · rw [List.append_nil]
        rfl
      · rintro tally ⟨⟩
        simp
  | cons stage rest ih =>
      rw [List.map_cons, runAll, runAll]
      by_cases skipped : stage.isSkipped profile
      · obtain ⟨taken, same, executed⟩ := ih state notes
        rw [if_pos skipped, if_pos (show stage.noted.isSkipped profile.noted from skipped), same]
        exact ⟨taken, rfl, executed.skip skipped⟩
      · rw [if_neg skipped, if_neg (show ¬stage.noted.isSkipped profile.noted from skipped)]
        have task : stage.noted.task ⟨stage.noted.name, settings, profile.noted⟩
              (state.withNotes notes) =
            ((stage.task ⟨stage.name, settings, profile⟩ state).1,
              (stage.task ⟨stage.name, settings, profile⟩ state).2.withNotes
                (notes ++ [⟨stage.name, (stage.task ⟨stage.name, settings, profile⟩ state).1⟩])) :=
          rfl
        rw [task]
        generalize stage.task ⟨stage.name, settings, profile⟩ state = outcome
        obtain ⟨error | _, after⟩ := outcome
        · exact ⟨[⟨stage.name, .error error⟩], rfl, .fail skipped rest error⟩
        · obtain ⟨taken, same, executed⟩ := ih after (notes ++ [⟨stage.name, .ok ()⟩])
          refine ⟨⟨stage.name, .ok ()⟩ :: taken, ?_, executed.run skipped⟩
          dsimp only
          rw [same, List.append_assoc]
          rfl

end Stage

/-! ### Writing tiles -/

namespace TileWriting

variable {τ η : Type}

theorem renderAll_noted (profile : Profile σ) (groups : List TileFeatures) :
    renderAll profile.noted groups = renderAll profile groups := by
  induction groups with
  | nil => rfl
  | cons group rest ih =>
      rw [renderAll, renderAll, ih]
      rfl

theorem renderBatch_noted (profile : Profile σ) (batch : List (Except SortError TileFeatures)) :
    renderBatch profile.noted batch = renderBatch profile batch := by
  rw [renderBatch, renderBatch]
  cases gather batch with
  | error => rfl
  | ok groups => exact renderAll_noted profile groups

theorem writeBatches_noted (profile : Profile σ) (options : TileOptions)
    (groups : List (Except SortError TileFeatures)) (progress : TileProgress)
    (writer : ArchiveWriter τ η) (world : τ) :
    writeBatches profile.noted options groups progress writer world =
      writeBatches profile options groups progress writer world := by
  fun_induction writeBatches profile options groups progress writer world with
  | case1 => rw [writeBatches]
  | case2 _ _ _ _ _ _ _ refused => rw [writeBatches, renderBatch_noted, refused]
  | case3 _ _ _ _ _ _ _ batched _ _ _ failed =>
      rw [writeBatches, renderBatch_noted, batched]
      simp only [failed]
  | case4 _ _ _ _ _ _ _ batched _ _ _ wrote ih =>
      rw [writeBatches, renderBatch_noted, batched]
      simp only [wrote]
      exact ih

theorem writeTiles_noted (profile : Profile σ) (options : TileOptions)
    (groups : List (Except SortError TileFeatures)) (writer : ArchiveWriter τ η) (world : τ) :
    writeTiles groups profile.noted options writer world =
      writeTiles groups profile options writer world := by
  simp only [writeTiles, writeBatches_noted]
  rfl

end TileWriting

/-! ### Runs -/

/-- The stages that a run counts. -/
def RunSummary.tally (summary : RunSummary) : StageTally :=
  ⟨summary.stagesRun, summary.stagesSkipped⟩

namespace Pipeline

variable {pipeline : Pipeline σ} {profile : Profile σ} {output : String}

theorem begin_noted (spill : SpillConfig) (directory : String) (disk : Disk) (own : σ)
    (notes : List Note) :
    begin spill directory disk (own, notes) =
      ((begin spill directory disk own).1.map (·.withNotes notes),
        (begin spill directory disk own).2) := by
  rw [begin, begin]
  split
  next => rfl
  next => split <;> rfl

theorem writeArchive_noted (settings : Settings) (profile : Profile σ) (output : String)
    (config : ArchiveConfig) (merge : Merge) (disk : Disk) :
    writeArchive settings profile.noted output config merge disk =
      writeArchive settings profile output config merge disk := by
  simp only [writeArchive, TileWriting.writeTiles_noted]

theorem archive_noted [Codec] (settings : Settings) (profile : Profile σ) (output : String)
    (config : ArchiveConfig) (tally : StageTally) (state : BuildState σ) (notes : List Note) :
    archive settings profile.noted output config tally (state.withNotes notes) =
      ((archive settings profile output config tally state).1,
        (archive settings profile output config tally state).2.1,
        (archive settings profile output config tally state).2.2, notes) := by
  simp only [archive, writeArchive_noted, BuildState.withNotes]
  split
  next => rfl
  next => split <;> rfl

theorem tally_of_archive [Codec] {settings : Settings} {config : ArchiveConfig} {tally : StageTally}
    {state : BuildState σ} {summary : RunSummary}
    (done : (archive settings profile output config tally state).1 = .ok summary) :
    summary.tally = tally := by
  rw [archive] at done
  split at done
  next => cases done
  next =>
    split at done
    next => cases done
    next =>
      dsimp only at done
      generalize writeArchive settings profile output config _ _ = outcome at done
      obtain ⟨_ | counts, behind⟩ := outcome
      · cases done
      · cases done
        rfl

theorem runIn_noted [Codec] (pipeline : Pipeline σ) (profile : Profile σ) (output : String)
    (plan : RunPlan) (directory : String) (disk : Disk) (own : σ) :
    ∃ taken,
      pipeline.noted.runIn profile.noted output plan directory disk (own, []) =
        ((pipeline.runIn profile output plan directory disk own).1,
          (pipeline.runIn profile output plan directory disk own).2.1,
          (pipeline.runIn profile output plan directory disk own).2.2, taken) ∧
      Executed profile pipeline.stages
        ((pipeline.runIn profile output plan directory disk own).1.map RunSummary.tally) taken := by
  rw [runIn, runIn, begin_noted]
  generalize begin plan.spill directory disk own = begun
  obtain ⟨error | state, made⟩ := begun
  · exact ⟨[], rfl, .of_error profile _ error⟩
  · obtain ⟨taken, same, executed⟩ :=
      Stage.runAll_noted pipeline.settings profile pipeline.stages state []
    refine ⟨taken, ?_⟩
    simp only [Except.map, noted]
    rw [same]
    generalize Stage.runAll pipeline.settings profile pipeline.stages state = outcome at executed
    obtain ⟨error | tally, after⟩ := outcome
    · exact ⟨rfl, executed⟩
    · refine ⟨archive_noted .., executed.order, executed.stops, fun total done => ?_⟩
      cases archived : (archive pipeline.settings profile output plan.archive tally after).1 with
      | error error => rw [archived] at done; cases done
      | ok summary =>
          rw [archived] at done
          cases done
          rw [tally_of_archive archived]
          exact executed.whole tally rfl

theorem execute_noted [Codec] [Naming] (pipeline : Pipeline σ) (profile : Profile σ)
    (output : String) (plan : RunPlan) (disk : Disk) (own : σ) :
    ∃ taken,
      pipeline.noted.execute profile.noted output plan disk (own, []) =
        ((pipeline.execute profile output plan disk own).1,
          (pipeline.execute profile output plan disk own).2.1,
          (pipeline.execute profile output plan disk own).2.2, taken) ∧
      Executed profile pipeline.stages
        ((pipeline.execute profile output plan disk own).1.map RunSummary.tally) taken := by
  rw [execute, execute, show pipeline.noted.clearOutput = pipeline.clearOutput from rfl]
  generalize pipeline.clearOutput output plan.archive disk = cleared
  obtain ⟨error | _, room⟩ := cleared
  · exact ⟨[], rfl, .of_error profile _ error⟩
  · dsimp only
    rw [show pipeline.noted.settings = pipeline.settings from rfl]
    generalize createDirectory pipeline.settings.workspace (outputParts output plan.archive) room =
      created
    obtain ⟨error | directory, made⟩ := created
    · exact ⟨[], rfl, .of_error profile _ error⟩
    · obtain ⟨taken, same, executed⟩ := pipeline.runIn_noted profile output plan directory made own
      refine ⟨taken, ?_, executed⟩
      dsimp only
      rw [same]

theorem essentials_noted (pipeline : Pipeline σ) :
    pipeline.noted.essentials = pipeline.essentials.map fun found => (found.1.noted, found.2) := by
  simp only [essentials, noted, List.isEmpty_map]
  split
  next => rfl
  next =>
    cases pipeline.profile with
    | none => rfl
    | some profile =>
        cases pipeline.output with
        | none => rfl
        | some output =>
            dsimp only [Option.map_some]
            split <;> rfl

/-- Taking notes changes nothing, and the notes are of the stages in order, up to the first that
fails. -/
theorem run_noted [Codec] [Naming] (pipeline : Pipeline σ) (disk : Disk) (own : σ) :
    pipeline.noted.run disk (own, []) =
        ((pipeline.run disk own).1, (pipeline.run disk own).2.1.noted,
          (pipeline.run disk own).2.2.1, (pipeline.run disk own).2.2.2,
          pipeline.notes disk own) ∧
      (∀ error, pipeline.essentials = .error error → pipeline.notes disk own = []) ∧
      ∀ profile output, pipeline.essentials = .ok (profile, output) →
        Executed profile pipeline.stages ((pipeline.run disk own).1.map RunSummary.tally)
          (pipeline.notes disk own) := by
  rw [notes, run, run, essentials_noted]
  cases pipeline.essentials with
  | error error => exact ⟨rfl, fun _ _ => rfl, by simp⟩
  | ok found =>
      obtain ⟨profile, output⟩ := found
      simp only [Except.map]
      rw [show pipeline.noted.plan disk = pipeline.plan disk from rfl]
      cases pipeline.plan disk with
      | error error =>
          refine ⟨rfl, by simp, fun _ _ _ => .of_error _ _ _⟩
      | ok plan =>
          obtain ⟨taken, same, executed⟩ := pipeline.execute_noted profile output plan disk own
          dsimp only
          rw [same]
          refine ⟨rfl, by simp, ?_⟩
          rintro _ _ ⟨⟩
          exact executed

end Pipeline
end TileBindery
