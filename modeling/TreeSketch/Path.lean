import TreeSketch.Text.Utf8

/-! # Names and paths

    A path is a byte string as it was given: it is never normalised.  Its
    pieces are what stands between the separators, so a trailing separator
    leaves an empty last piece.  A child's path adds one separator, and
    none where the directory's path already ends in one. -/

namespace TreeSketch

/-- The name of an entry in its directory. -/
abbrev Name := Bytes

/-- A path as it is handed to the system. -/
abbrev Path := Bytes

namespace Path

/-- The byte between the pieces of a path. -/
def separator : UInt8 := 0x2F

/-- The piece that stands for the directory itself. -/
def selfPiece : Name := [0x2E]

/-- The piece that stands for the directory above. -/
def parentPiece : Name := [0x2E, 0x2E]

/-- What stands before, between and after the separators. -/
def pieces (path : Path) : List Name :=
  path.splitOn separator

/-- Whether a path starts at the root. -/
def isAbsolute (path : Path) : Bool :=
  path.head? == some separator

/-- The path of the entry `name` of the directory at `dir`. -/
def child (dir : Path) (name : Name) : Path :=
  if dir.getLast? = some separator then dir ++ name else dir ++ separator :: name

/-- A path as messages show it. -/
def shown (path : Path) : String :=
  Text.decodeLossy path

end Path

end TreeSketch
