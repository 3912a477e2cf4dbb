import TileBindery.Proofs.History
import TileBindery.Proofs.Pipeline.Notes
import TileBindery.Proofs.Pipeline.Output

/-!
# The life of a pipeline

A pipeline is prepared and run by calls in any order, on a disk that others change between the
calls.  The main statement says what all such histories have in common: a run that cannot begin
leaves everything as it is, the first run that can is the last, and so every task is executed once
at most.
-/

namespace TileBindery

variable {σ : Type}

/-- What happens to a pipeline. -/
inductive PipelineEvent (σ : Type) where
  /-- A stage is registered, with this answer. -/
  | add (stage : Stage σ) (answer : Except PipelineError Unit)
  /-- Parts of a stage are described, with this answer. -/
  | describe (name : String) (answer : Except PipelineError Unit)
  /-- The profile, the output or the input is set. -/
  | set
  /-- The pipeline is run.  A run is complete if nothing is missing and it is the first one. -/
  | run (complete : Bool) (answer : Except PipelineError RunSummary) (notes : List Note)
  /-- Others change the disk, or what stages and profile act on. -/
  | change

namespace PipelineEvent

def isComplete : PipelineEvent σ → Bool
  | .run complete _ _ => complete
  | _ => false

/-- A registration or a description is refused. -/
def IsRefused : PipelineEvent σ → Prop
  | .add _ (.error _) => True
  | .describe _ (.error _) => True
  | _ => False

/-- The tasks that are executed. -/
def notes : PipelineEvent σ → List Note
  | .run _ _ notes => notes
  | _ => []

/-- The tasks that are executed in a history, in order. -/
def executed (events : List (PipelineEvent σ)) : List Note := events.flatMap notes

end PipelineEvent

namespace Pipeline

/-- One event in the life of a pipeline and the world around it.  Calls that are refused leave the
pipeline as it is. -/
inductive Step [Codec] [Naming] :
    Pipeline σ × Disk × σ → PipelineEvent σ → Pipeline σ × Disk × σ → Prop where
  | addStage (pipeline : Pipeline σ) (disk : Disk) (own : σ) (stage : Stage σ) :
      Step (pipeline, disk, own) (.add stage ((pipeline.addStage stage).map fun _ => ()))
        ((pipeline.addStage stage).toOption.getD pipeline, disk, own)
  | describe (pipeline : Pipeline σ) (disk : Disk) (own : σ) (name : String)
      (substages : List (String × String)) :
      Step (pipeline, disk, own)
        (.describe name ((pipeline.describe name substages).map fun _ => ()))
        ((pipeline.describe name substages).toOption.getD pipeline, disk, own)
  | setProfile (pipeline : Pipeline σ) (disk : Disk) (own : σ) (profile : Profile σ) :
      Step (pipeline, disk, own) .set (pipeline.setProfile profile, disk, own)
  | setOutput (pipeline : Pipeline σ) (disk : Disk) (own : σ) (path : String) :
      Step (pipeline, disk, own) .set (pipeline.setOutput path, disk, own)
  | overwriteOutput (pipeline : Pipeline σ) (disk : Disk) (own : σ) (path : String) :
      Step (pipeline, disk, own) .set (pipeline.overwriteOutput path, disk, own)
  | setInput (pipeline : Pipeline σ) (disk : Disk) (own : σ) (path : String) :
      Step (pipeline, disk, own) .set (pipeline.setInput path, disk, own)
  | run (pipeline : Pipeline σ) (disk : Disk) (own : σ) :
      Step (pipeline, disk, own)
        (.run pipeline.essentials.isOk (pipeline.run disk own).1 (pipeline.notes disk own))
        (pipeline.run disk own).2
  | change (pipeline : Pipeline σ) (disk : Disk) (own : σ) (other : Disk) (kept : σ) :
      Step (pipeline, disk, own) .change (pipeline, other, kept)

/-! ### Registration -/

theorem addStage_eq (pipeline : Pipeline σ) (stage : Stage σ) :
    pipeline.addStage stage =
      if stage.name ∈ pipeline.stages.map Stage.name then .error (.duplicateStage stage.name)
      else .ok { pipeline with stages := pipeline.stages ++ [stage] } := by
  rw [addStage]
  congr 1
  simp

theorem describe_cases (pipeline : Pipeline σ) (name : String)
    (substages : List (String × String)) :
    pipeline.describe name substages = .error (.settings (.unknownStage name)) ∨
      ∃ next, pipeline.describe name substages = .ok next ∧ next.ran = pipeline.ran ∧
        next.stages.map Stage.name = pipeline.stages.map Stage.name := by
  rw [describe]
  split
  next =>
    refine .inr ⟨_, rfl, rfl, ?_⟩
    rw [List.map_map]
    refine List.map_congr_left fun stage _ => ?_
    rw [Function.comp_apply]
    split <;> rfl
  next => exact .inl rfl

/-! ### Runs -/

/-- What is missing for a run, and told first. -/
def missing (pipeline : Pipeline σ) : Option SettingsError :=
  if pipeline.profile.isNone then some .noProfile
  else if pipeline.output.isNone then some .noOutput
  else if pipeline.stages = [] then some .noStages
  else none

/-- A pipeline that has not been run can begin a run unless something is missing. -/
theorem essentials_cases {pipeline : Pipeline σ} (first : pipeline.ran = false) :
    (∃ error, pipeline.missing = some error ∧ pipeline.essentials = .error (.settings error)) ∨
      pipeline.missing = none ∧ ∃ profile output, pipeline.profile = some profile ∧
        pipeline.essentials = .ok (profile, output) := by
  rw [essentials, first, missing]
  cases pipeline.profile with
  | none => exact .inl ⟨_, rfl, rfl⟩
  | some profile =>
      cases pipeline.output with
      | none => exact .inl ⟨_, rfl, rfl⟩
      | some output =>
          cases pipeline.stages with
          | nil => exact .inl ⟨_, rfl, rfl⟩
          | cons => exact .inr ⟨rfl, profile, output, rfl, rfl⟩

theorem essentials_of_ran {pipeline : Pipeline σ} (ran : pipeline.ran) :
    pipeline.essentials = .error .alreadyRan := if_pos ran

section

variable [Codec] [Naming]

theorem run_of_error {pipeline : Pipeline σ} {error : PipelineError}
    (refused : pipeline.essentials = .error error) (disk : Disk) (own : σ) :
    pipeline.run disk own = (.error error, pipeline, disk, own) ∧ pipeline.notes disk own = [] := by
  refine ⟨?_, (pipeline.run_noted disk own).2.1 error refused⟩
  rw [run, refused]

theorem ran_of_run {pipeline : Pipeline σ} {profile : Profile σ} {output : String}
    (found : pipeline.essentials = .ok (profile, output)) (disk : Disk) (own : σ) :
    (pipeline.run disk own).2.1 = { pipeline with ran := true } := by
  rw [run, found]
  dsimp only
  split <;> rfl

/-- What a run comes to in a pipeline that has been run, or has not. -/
structure Attempt (pipeline : Pipeline σ) (disk : Disk) (own : σ) (again : Prop) : Prop where
  /-- The notes are those that the stages take, which changes nothing else. -/
  noted : pipeline.noted.run disk (own, []) =
    ((pipeline.run disk own).1, (pipeline.run disk own).2.1.noted, (pipeline.run disk own).2.2.1,
      (pipeline.run disk own).2.2.2, pipeline.notes disk own)
  /-- A pipeline is not run again. -/
  refused : again →
    pipeline.run disk own = (.error .alreadyRan, pipeline, disk, own) ∧
      pipeline.notes disk own = []
  /-- What is missing is told, and nothing is done. -/
  incomplete : ¬again → ∀ error, pipeline.missing = some error →
    pipeline.run disk own = (.error (.settings error), pipeline, disk, own) ∧
      pipeline.notes disk own = []
  /-- If nothing is missing this is the run of the pipeline, whatever becomes of it. -/
  complete : ¬again → pipeline.missing = none →
    (pipeline.run disk own).2.1 = { pipeline with ran := true } ∧
      ∃ profile, pipeline.profile = some profile ∧ Executed profile pipeline.stages
        ((pipeline.run disk own).1.map RunSummary.tally) (pipeline.notes disk own)

theorem attempt (pipeline : Pipeline σ) (disk : Disk) (own : σ) :
    pipeline.Attempt disk own pipeline.ran where
  noted := (pipeline.run_noted disk own).1
  refused ran := run_of_error (essentials_of_ran ran) disk own
  incomplete first error lacks := by
    rcases essentials_cases (Bool.eq_false_iff.2 first) with ⟨_, told, refused⟩ | ⟨complete, -⟩
    · obtain rfl := Option.some.inj (told.symm.trans lacks)
      exact run_of_error refused disk own
    · cases complete.symm.trans lacks
  complete first complete := by
    rcases essentials_cases (Bool.eq_false_iff.2 first) with
      ⟨_, told, -⟩ | ⟨-, profile, output, profiled, found⟩
    · cases told.symm.trans complete
    · exact ⟨ran_of_run found disk own, profile, profiled,
        (pipeline.run_noted disk own).2.2 profile output found⟩

end

/-! ### Histories -/

/-- A pipeline to which events have happened. -/
structure Follows (events : List (PipelineEvent σ)) (pipeline : Pipeline σ) : Prop where
  names : (pipeline.stages.map Stage.name).Nodup
  /-- There is one complete run at most, and none before a pipeline has been run. -/
  once : events.countP PipelineEvent.isComplete = if pipeline.ran then 1 else 0
  /-- Nothing is executed before. -/
  idle : pipeline.ran = false → PipelineEvent.executed events = []
  order : ((PipelineEvent.executed events).map Note.stage).Sublist (pipeline.stages.map Stage.name)
  stops : (PipelineEvent.executed events).Pairwise fun note _ => note.answer = .ok ()

namespace Follows

variable {events : List (PipelineEvent σ)} {pipeline next : Pipeline σ} {event : PipelineEvent σ}

/-- An event that runs nothing leaves all as it is, but for new stages. -/
theorem of_quiet (follows : Follows events pipeline) (quiet : event.notes = [])
    (incomplete : event.isComplete = false) (ran : next.ran = pipeline.ran)
    (names : (next.stages.map Stage.name).Nodup)
    (grows : (pipeline.stages.map Stage.name).Sublist (next.stages.map Stage.name)) :
    Follows (events ++ [event]) next := by
  have executed : PipelineEvent.executed (events ++ [event]) = PipelineEvent.executed events := by
    simp [PipelineEvent.executed, quiet]
  have count : (events ++ [event]).countP PipelineEvent.isComplete =
      events.countP PipelineEvent.isComplete := by
    simp [List.countP_append, incomplete]
  refine ⟨names, ?_, ?_, ?_, ?_⟩
  · rw [count, ran, follows.once]
  · rw [executed, ran]
    exact follows.idle
  · rw [executed]
    exact follows.order.trans grows
  · rw [executed]
    exact follows.stops

theorem addStage (follows : Follows events pipeline) (stage : Stage σ)
    (answer : Except PipelineError Unit) :
    Follows (events ++ [.add stage answer]) ((pipeline.addStage stage).toOption.getD pipeline) := by
  rw [addStage_eq]
  split
  next => exact follows.of_quiet rfl rfl rfl follows.names (.refl _)
  next new =>
    change stage.name ∉ pipeline.stages.map Stage.name at new
    refine follows.of_quiet rfl rfl rfl ?_ ?_
    · rw [Except.toOption, Option.getD_some, List.map_append, List.nodup_append]
      refine ⟨follows.names, List.pairwise_singleton .., ?_⟩
      rintro name member _ (_ | ⟨_, ⟨⟩⟩) rfl
      exact new member
    · rw [Except.toOption, Option.getD_some, List.map_append]
      exact List.sublist_append_left ..

theorem describe (follows : Follows events pipeline) (name : String)
    (substages : List (String × String)) (answer : Except PipelineError Unit) :
    Follows (events ++ [.describe name answer])
      ((pipeline.describe name substages).toOption.getD pipeline) := by
  rcases describe_cases pipeline name substages with refused | ⟨next, done, ran, names⟩
  · rw [refused]
    exact follows.of_quiet rfl rfl rfl follows.names (.refl _)
  · rw [done]
    exact follows.of_quiet rfl rfl ran (names ▸ follows.names) (names ▸ .refl _)

theorem run [Codec] [Naming] (follows : Follows events pipeline) (disk : Disk) (own : σ) :
    Follows (events ++ [.run pipeline.essentials.isOk (pipeline.run disk own).1
      (pipeline.notes disk own)]) (pipeline.run disk own).2.1 := by
  cases found : pipeline.essentials with
  | error error =>
      obtain ⟨refused, none⟩ := run_of_error found disk own
      rw [refused, none]
      exact follows.of_quiet rfl rfl rfl follows.names (.refl _)
  | ok essentials =>
      obtain ⟨profile, output⟩ := essentials
      -- nothing has been executed before, so the tasks of this run are all there are
      have first : pipeline.ran = false := by
        refine Bool.eq_false_iff.2 fun ran => ?_
        rw [essentials_of_ran ran] at found
        cases found
      have executed := (pipeline.run_noted disk own).2.2 profile output found
      have all : PipelineEvent.executed (events ++ [.run true (pipeline.run disk own).1
          (pipeline.notes disk own)]) = pipeline.notes disk own := by
        rw [PipelineEvent.executed, List.flatMap_append, ← PipelineEvent.executed,
          follows.idle first]
        simp [PipelineEvent.notes]
      rw [ran_of_run found]
      refine ⟨follows.names, ?_, by simp, ?_, ?_⟩
      · rw [List.countP_append, follows.once, first]
        rfl
      · change (PipelineEvent.executed (events ++ [.run true _ _])).map Note.stage |>.Sublist _
        rw [all]
        exact executed.order.sublist.trans (List.filter_sublist.map _)
      · change (PipelineEvent.executed (events ++ [.run true _ _])).Pairwise _
        rw [all]
        exact executed.stops

theorem step [Codec] [Naming] {state after : Pipeline σ × Disk × σ} (step : Step state event after)
    (follows : Follows events state.1) : Follows (events ++ [event]) after.1 := by
  cases step with
  | addStage _ _ _ stage => exact follows.addStage stage _
  | describe _ _ _ name substages => exact follows.describe name substages _
  | setProfile | setOutput | overwriteOutput | setInput | change =>
      exact follows.of_quiet rfl rfl rfl follows.names (.refl _)
  | run pipeline disk own => exact follows.run disk own

theorem ofSettings (settings : Settings) : Follows [] (ofSettings settings : Pipeline σ) :=
  ⟨.nil, rfl, fun _ => rfl, .slnil, .nil⟩

end Follows

/-- Whatever happens to a pipeline in whatever order: the names of its stages differ, and a stage
whose name is taken changes nothing.  A run that lacks something changes nothing and executes
nothing.  The first that lacks nothing is the only one, whatever becomes of it.  So in all each task
is executed once at most, in the order of the stages, no source that the profile does not use, and
none behind one that fails. -/
theorem runs_once [Codec] [Naming] {settings : Settings} {disk left : Disk} {own kept : σ}
    {last : Pipeline σ} {events : List (PipelineEvent σ)}
    (history : History Step (Pipeline.ofSettings settings, disk, own) events (last, left, kept)) :
    (last.stages.map Stage.name).Nodup ∧
    (∀ event after, Step (last, left, kept) event after → event.IsRefused →
      after = (last, left, kept)) ∧
    (∀ stage, (∃ error, last.addStage stage = .error error) ↔
      stage.name ∈ last.stages.map Stage.name) ∧
    last.Attempt left kept (∃ event ∈ events, event.isComplete) ∧
    events.countP PipelineEvent.isComplete ≤ 1 ∧
    ((PipelineEvent.executed events).map Note.stage).Nodup ∧
    ((PipelineEvent.executed events).map Note.stage).Sublist (last.stages.map Stage.name) ∧
    (PipelineEvent.executed events).Pairwise fun note _ => note.answer = .ok () := by
  have follows : Follows ([] ++ events) last :=
    history.accumulates (fun events state => Follows events state.1)
      (fun _ _ _ _ step follows => follows.step step) (.ofSettings settings)
  rw [List.nil_append] at follows
  have complete : (∃ event ∈ events, event.isComplete) ↔ last.ran := by
    have once := follows.once
    rw [← List.countP_pos_iff, once]
    cases last.ran <;> simp
  refine ⟨follows.names, ?_, fun stage => ?_, ?_, ?_, follows.order.nodup follows.names,
    follows.order, follows.stops⟩
  · intro event after step refused
    cases step with
    | addStage _ _ _ stage =>
        cases outcome : last.addStage stage with
        | error => rfl
        | ok =>
            rw [outcome] at refused
            cases refused
    | describe _ _ _ name substages =>
        cases outcome : last.describe name substages with
        | error => rfl
        | ok =>
            rw [outcome] at refused
            cases refused
    | setProfile | setOutput | overwriteOutput | setInput | run | change => cases refused
  · rw [addStage_eq]
    split <;> simp_all
  · rw [propext complete]
    exact last.attempt left kept
  · rw [follows.once]
    split <;> decide

/-- A pipeline that lacks a profile and an output. -/
def started : Pipeline Unit :=
  { (ofSettings (.standard 1) : Pipeline Unit) with stages := [halt] }

/-- A pipeline that lacks nothing. -/
def ready : Pipeline Unit := (started.setProfile payloads).setOutput "out"

section

attribute [local instance] Frame.codec Naming.numbered

/-- A pipeline is prepared, with a stage that is registered twice, and run.  Whatever becomes of
this, it is not run again. -/
theorem runs_once_ready :
    History Step (ofSettings (.standard 1), .empty, ())
        [.add halt (.ok ()), .add halt (.error (.duplicateStage "halt")), .set, .set,
          .run true (ready.run .empty ()).1 (ready.notes .empty ())]
        (ready.run .empty ()).2 ∧
      (ready.run .empty ()).2.1.run (ready.run .empty ()).2.2.1 () =
        (.error .alreadyRan, (ready.run .empty ()).2) := by
  have first : Step (ofSettings (.standard 1), .empty, ()) (.add halt (.ok ()))
      (started, .empty, ()) := .addStage _ _ _ halt
  have second : Step (started, .empty, ())
      (.add halt (.error (.duplicateStage "halt"))) (started, .empty, ()) :=
    .addStage _ _ _ halt
  have run : Step (ready, .empty, ())
      (.run true (ready.run .empty ()).1 (ready.notes .empty ())) (ready.run .empty ()).2 :=
    .run ready .empty ()
  have history := History.cons first (.cons second (.cons (.setProfile started _ _ payloads)
    (.cons (.setOutput (started.setProfile payloads) _ _ "out") (.cons run (.nil _)))))
  generalize ready.run .empty () = outcome at history ⊢
  obtain ⟨-, -, -, attempt, -⟩ := runs_once history
  let last : PipelineEvent Unit := .run true outcome.1 (ready.notes .empty ())
  exact ⟨history, (attempt.refused ⟨last, by simp [last], rfl⟩).1⟩

end

end Pipeline
end TileBindery
