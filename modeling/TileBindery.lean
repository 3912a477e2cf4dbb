import TileBindery.Metadata.Json
import TileBindery.Proofs.Archive.EntryArchive
import TileBindery.Proofs.Archive.Lines
import TileBindery.Proofs.Pipeline.CutRuns
import TileBindery.Proofs.Spill.Custody
import TileBindery.Proofs.Spill.SorterHistory
import TileBindery.Settings.File
import TileBindery.Tile.Json
import TileBindery.Proofs.Archive.Partition
import TileBindery.Proofs.Disk.Removal
import TileBindery.Proofs.Pipeline.Clearing
import TileBindery.Proofs.Archive.Upkeep
import TileBindery.Proofs.Disk.Leeway
import TileBindery.Proofs.Pipeline.Context
import TileBindery.Proofs.Pipeline.Footprint
import TileBindery.Proofs.Pipeline.Output
import TileBindery.Proofs.Pipeline.Workspace
import TileBindery.Proofs.Disk.Reachable
import TileBindery.Proofs.Archive.Discernible
import TileBindery.Proofs.Archive.ShardHistory
import TileBindery.Proofs.NodeTable.History
import TileBindery.Proofs.Pipeline.RunHistory
import TileBindery.Proofs.Tile.Json
import TileBindery.Proofs.Grouping.Grouper
import TileBindery.Proofs.Pipeline.TileSink
import TileBindery.Proofs.Spill.Headers
import TileBindery.Archive.Reader
import TileBindery.Proofs.Spill.Alterations
import TileBindery.Proofs.Archive.EntryCuts
import TileBindery.Proofs.Archive.LinePieces
import TileBindery.Proofs.Spill.WholeChunks
import TileBindery.Proofs.Spill.Bookkeeping
import TileBindery.Proofs.Metadata.LayerReports
import TileBindery.Proofs.Metadata.ZoomRanges
import TileBindery.Proofs.Tile.Order
import TileBindery.Proofs.Settings.Options
import TileBindery.Proofs.Json.Documents
import TileBindery.Proofs.Metadata.Json
import TileBindery.Proofs.Toml.Strings
import TileBindery.Proofs.Toml.Values
import TileBindery.Proofs.Toml.Documents
import TileBindery.Proofs.Settings.Toml
import TileBindery.Proofs.Settings.Separators
