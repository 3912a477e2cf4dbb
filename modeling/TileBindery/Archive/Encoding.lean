import TileBindery.Archive.EntryFormat
import TileBindery.Archive.Line

/-!
# What an archive writes

The octets of a header, a tile and a footer in the configured format, as the pieces that are handed
to a destination.  Lines have no place for metadata, so a text archive has no header and no footer.
-/

namespace TileBindery
namespace ArchiveConfig

/-- Tiles are refused until the header is written. -/
def requiresHeader (config : ArchiveConfig) : Bool := !config.format.isText

def headerPieces (config : ArchiveConfig) (metadata : Metadata) : List Bytes :=
  if config.format.isText then [] else [EntryFormat.frame (.ofHeader metadata)]

def tilePieces (config : ArchiveConfig) (tile : Tile) (data : Option Bytes) : List Bytes :=
  if config.format.isText then (Line.pieces config.lines tile data).map Utf8.encode
  else [EntryFormat.frame (.ofTile tile data)]

/-- The octets of tiles, one behind the other. -/
def tileOctets (config : ArchiveConfig) (tiles : List (Tile × Option Bytes)) : Bytes :=
  tiles.flatMap fun entry => (config.tilePieces entry.1 entry.2).flatten

def footerPieces (config : ArchiveConfig) (metadata : Metadata) : List Bytes :=
  if config.format.isText then [] else [EntryFormat.frame (.ofFooter metadata)]

end ArchiveConfig
end TileBindery
