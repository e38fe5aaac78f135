import TreeSketch.Path

/-! # Directory entries

    An entry is one line's worth of a listing: the name as it is shown,
    the path by which it is reached, and whether it is a directory. -/

namespace TreeSketch

/-- What an entry is drawn as. -/
inductive EntryKind where
  | file
  | directory
  deriving DecidableEq, Repr

/-- An entry of a directory. -/
structure Entry where
  name : String
  path : Path
  kind : EntryKind
  deriving DecidableEq, Repr

namespace Entry

/-- Whether an entry is drawn as a directory. -/
def isDirectory (entry : Entry) : Bool :=
  entry.kind = .directory

/-- The name as it is drawn: a directory's ends in a slash. -/
def displayName (entry : Entry) : String :=
  match entry.kind with
  | .directory => entry.name ++ "/"
  | .file => entry.name

theorem displayName_eq (entry : Entry) :
    entry.displayName = if entry.isDirectory then entry.name ++ "/" else entry.name := by
  rw [displayName, isDirectory]
  cases entry.kind with
  | file => rfl
  | directory => rfl

end Entry

end TreeSketch
