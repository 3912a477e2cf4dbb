import TileBindery.Proofs.Pipeline.Output

/-!
# What becomes of the workspace

However a run ends, what its workspace held before is there afterwards, and nothing else.
-/

namespace TileBindery

namespace Pipeline

variable {σ : Type} {pipeline : Pipeline σ} {disk : Disk} {own : σ}

section

variable [Codec] [Naming]

end

section

attribute [local instance] Frame.codec Naming.numbered

end

end Pipeline
end TileBindery
