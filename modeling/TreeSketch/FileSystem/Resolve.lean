import TreeSketch.Error
import TreeSketch.FileSystem.Node

/-! # From paths to places

    Resolution goes through the pieces of a path from left to right, from
    the root if the path is absolute and else from the current directory.
    A link is followed by going through its target's pieces first, from
    the root again or from the directory that holds the link, then through
    the rest; the number of links still allowed falls by one each time, so
    resolution ends.

    An empty piece, which a doubled or trailing separator leaves, only
    demands that the place is a directory; every other piece is looked up
    there and needs the search permission. -/

namespace TreeSketch

/-- The greatest length of a name. -/
def Name.maxLength : Nat :=
  255

/-- The length from which a path is refused. -/
def Path.lengthLimit : Nat :=
  4096

/-- The number of links that one resolution may follow. -/
def Path.linkLimit : Nat :=
  40

/-- What one piece of a path leads to. -/
inductive Step where
  /-- A place. -/
  | arrive (place : Place)
  /-- A link in the same directory, with this target. -/
  | follow (target : Path)

namespace Place

/-- Looks `piece` up at a place. -/
def step (here : Place) (piece : Name) : Except SystemError Step :=
  match here.node with
  | .directory permissions children =>
    if piece = [] then .ok (.arrive here)
    else if !permissions.search then .error .permissionDenied
    else if piece = Path.selfPiece then .ok (.arrive here)
    else if piece = Path.parentPiece then .ok (.arrive here.parent)
    else if Name.maxLength < piece.length then .error .nameTooLong
    else match children.lookup piece with
      | none => .error .notFound
      | some (.link target) => .ok (.follow target)
      | some node => .ok (.arrive (here.enter piece node))
  | _ => .error .notDirectory

/-- Goes through pieces from a place, and leaves a link, with the pieces
    after it, to `follow`. -/
def walk (follow : Place → Path → List Name → Except SystemError Place) :
    Place → List Name → Except SystemError Place
  | here, [] => .ok here
  | here, piece :: rest =>
    match here.step piece with
    | .error e => .error e
    | .ok (.arrive next) => walk follow next rest
    | .ok (.follow target) => follow here target rest

/-- Where the pieces of a path are gone through from: the top if it is
    absolute, and else here. -/
def origin (top here : Place) (path : Path) : Place :=
  if path.isAbsolute then top else here

/-- Goes through pieces from a place and follows at most `links` links;
    absolute targets start at `top`. -/
def resolve (top : Place) : Nat → Place → List Name → Except SystemError Place
  | 0 => walk fun _ _ _ => .error .linkLoop
  | links + 1 => walk fun here target rest =>
    resolve top links (top.origin here target) (Path.pieces target ++ rest)

end Place

namespace FileSystem

/-- Where the pieces of a path start. -/
def origin (fs : FileSystem) (path : Path) : Place :=
  (Place.top fs).origin (.current fs) path

/-- The place a path leads to. -/
def resolve (fs : FileSystem) (path : Path) : Except Cause Place :=
  if 0 ∈ path then .error .nulInPath
  else if path = [] then .error (.system .notFound)
  else if Path.lengthLimit ≤ path.length then .error (.system .nameTooLong)
  else ((Place.top fs).resolve Path.linkLimit (fs.origin path) path.pieces).mapError .system

/-- The names in the directory a path leads to, in the order the system
    gives them. -/
def readNames (fs : FileSystem) (path : Path) : Except Cause (List Name) :=
  match fs.resolve path with
  | .error cause => .error cause
  | .ok place =>
    match place.node with
    | .directory permissions children =>
      if permissions.read then .ok (children.map Prod.fst)
      else .error (.system .permissionDenied)
    | _ => .error (.system .notDirectory)

end FileSystem

end TreeSketch
