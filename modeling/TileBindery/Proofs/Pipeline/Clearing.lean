import TileBindery.Pipeline.Run
import TileBindery.Proofs.Disk.Removal

/-!
# Room for the archive

Before its stages run, a run makes room for its archive: it refuses an output that exists, or removes
what stands at the paths of its shards, and nothing else.  An archive that is appended needs no room.
-/

namespace TileBindery
namespace Pipeline

variable {σ : Type} {disk after : Disk}

variable {pipeline : Pipeline σ} {output : String} {config : ArchiveConfig}

end Pipeline
end TileBindery
