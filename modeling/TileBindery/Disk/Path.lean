/-!
# Paths

A path is a text whose parts are separated by slashes.  A part is a name, a dot, which stays where
the path has led so far, or a double dot, which leaves that directory for the one above it.  What a
path leads to is up to the disk: a double dot is only as good as the directory in front of it.
-/

namespace TileBindery

/-- A place on the disk: names from the root downwards. -/
abbrev Location := List String

structure Path where
  parts : List String
  /-- A slash stands behind the last part. -/
  slash : Bool
  /-- Octets of the text that the path was taken from. -/
  size : Nat
  deriving DecidableEq, Repr

namespace Path

/-- Append a relative path to a directory's path. -/
def join (directory name : String) : String :=
  if name.startsWith "/" ∨ directory.isEmpty then name
  else if directory.endsWith "/" then directory ++ name
  else directory ++ "/" ++ name

/-- A number in the name of a file: six digits at least. -/
def numberText (number : Nat) : String :=
  let digits := toString number
  String.ofList (List.replicate (6 - digits.length) '0') ++ digits

def pieces : List Char → List (List Char)
  | [] => [[]]
  | c :: rest =>
      if c = '/' then [] :: pieces rest
      else
        match pieces rest with
        | [] => [[c]]
        | piece :: more => (c :: piece) :: more

/-- The path of a text.  Slashes side by side count as one. -/
def ofText (text : String) : Path where
  parts := ((pieces text.toList).filter fun piece => !piece.isEmpty).map String.ofList
  slash := text.toList.getLast? = some '/'
  size := text.utf8ByteSize

/-- A part holds the character that ends names on a disk. -/
def hasNul (path : Path) : Bool := path.parts.any fun part => part.toList.contains '\x00'

/-- The path of parts, with a slash between any two of them. -/
def ofParts (parts : List String) : Path where
  parts := parts
  slash := false
  size := parts.foldr (fun part size => part.utf8ByteSize + size) (parts.length - 1)

/-- Drop dots in front of parts that are given innermost first. -/
def dropDots : List String → List String
  | [] => []
  | part :: rest => if part = "." then dropDots rest else part :: rest

/-- What is left in front of each part that is no dot, both given innermost first. -/
def outer : List String → List (List String)
  | [] => []
  | part :: rest => if part = "." then outer rest else dropDots rest :: outer rest

/-- The paths that a path goes on from, the longest first.  A dot at the end of a path counts as
nothing, and a double dot as a part like any other. -/
def ancestors (path : Path) : List Path :=
  (outer path.parts.reverse).map fun parts => ofParts parts.reverse

/-- The path in front of the last part that is no dot. -/
def parent? (path : Path) : Option Path := path.ancestors.head?

end Path
end TileBindery
