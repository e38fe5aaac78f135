import TreeSketch.FileSystem.Resolve

/-! # Changing the stored tree

    Nodes are added, removed, moved and given permissions by path.  The
    directories on the way are found through links, and without regard to
    permissions: these say what a reader of the tree may see, not what its
    keeper may change.  The current directory stays where it is, and what
    would take it away is refused. -/

namespace TreeSketch

namespace Node

mutual

/-- The same node with every permission granted throughout. -/
def granted : Node → Node
  | directory _ children => directory .granted (grantedChildren children)
  | file => file
  | pipe => pipe
  | link target => link target

/-- The same children with every permission granted throughout. -/
def grantedChildren : List (Name × Node) → List (Name × Node)
  | [] => []
  | (name, node) :: rest => (name, node.granted) :: grantedChildren rest

end

/-- Makes `child` the child `name` of a directory, instead of the one it
    has or after all others. -/
def putChild (name : Name) (child : Node) : Node → Node
  | directory permissions children =>
    if (children.lookup name).isSome then
      directory permissions
        (children.map fun (n, node) => if n = name then (n, child) else (n, node))
    else directory permissions (children ++ [(name, child)])
  | node => node

/-- Takes the child `name` out of a directory. -/
def dropChild (name : Name) : Node → Node
  | directory permissions children =>
    directory permissions (children.filter fun (n, _) => n ≠ name)
  | node => node

/-- Gives a directory other permissions. -/
def setPermissions (permissions : Permissions) : Node → Node
  | directory _ children => directory permissions children
  | node => node

/-- Changes the node that names lead to. -/
def alter (change : Node → Node) : Location → Node → Node
  | [], node => change node
  | name :: rest, directory permissions children =>
    directory permissions
      (children.map fun (n, node) => if n = name then (n, alter change rest node) else (n, node))
  | _ :: _, node => node

end Node

/-- A node to add: a directory, file, pipe or link, at a path, with
    permissions of its own if it is a directory that shall have them. -/
structure Addition where
  path : Path
  node : Node
  permissions : Option Permissions

namespace FileSystem

/-- The location that the pieces of a path start from. -/
def start (fs : FileSystem) (path : Path) : Location :=
  if path.isAbsolute then [] else fs.current

/-- Where pieces lead from a location, with every permission granted. -/
def arrive (fs : FileSystem) (here : Location) (pieces : List Name) :
    Except SystemError Location :=
  let top : Place := ⟨fs.root.granted, []⟩
  (top.resolve Path.linkLimit (top.descend here) pieces).map Place.location

/-- The same file system with another tree, if the current directory is in
    that as well. -/
def withRoot (fs : FileSystem) (root : Node) : Except SystemError FileSystem :=
  if h : (root.descend? fs.current).any Node.isDirectory = true then .ok ⟨root, fs.current, h⟩
  else .error .invalidArgument

/-- Changes the node at a location. -/
def alter (fs : FileSystem) (here : Location) (change : Node → Node) :
    Except SystemError FileSystem :=
  fs.withRoot (fs.root.alter change here)

/-- The directory that `piece` leads to, made if there is nothing of that
    name. -/
def enterMaking (fs : FileSystem) (here : Location) (piece : Name) :
    Except SystemError (FileSystem × Location) :=
  match fs.arrive here [piece] with
  | .ok there => .ok (fs, there)
  | .error .notFound =>
    match (fs.root.descend? here).bind (Node.child? piece) with
    | none => do
      let fs ← fs.alter here (Node.putChild piece (.directory .granted []))
      .ok (fs, here ++ [piece])
    | some _ => .error .alreadyExists
  | .error e => .error e

/-- The directory that pieces lead to, with whatever is missing on the way
    made. -/
def enterAllMaking (fs : FileSystem) (here : Location) :
    List Name → Except SystemError (FileSystem × Location)
  | [] => .ok (fs, here)
  | piece :: rest =>
    match fs.enterMaking here piece with
    | .ok (fs, there) => fs.enterAllMaking there rest
    | .error e => .error e

/-- Splits a path into the pieces of the directory and the last name. -/
def splitLast (path : Path) : Except SystemError (List Name × Name) :=
  let pieces := path.pieces.filter fun piece => piece ≠ []
  match pieces.getLast? with
  | some name => .ok (pieces.dropLast, name)
  | none => .error .notFound

/-- Adds one node, without its permissions.  A directory or file that is
    there already stays. -/
def add (fs : FileSystem) (addition : Addition) : Except SystemError FileSystem :=
  match addition.node with
  | .directory _ _ =>
    (fs.enterAllMaking (fs.start addition.path) addition.path.pieces).map Prod.fst
  | node => do
    let (before, name) ← splitLast addition.path
    let (fs, here) ← fs.enterAllMaking (fs.start addition.path) before
    match (fs.root.descend? here).bind (Node.child? name), node with
    | none, _ => fs.alter here (Node.putChild name node)
    | some _, .file => .ok fs
    | some _, _ => .error .alreadyExists

/-- Gives the directory a path leads to other permissions. -/
def setPermissions (fs : FileSystem) (path : Path) (permissions : Permissions) :
    Except SystemError FileSystem := do
  let here ← fs.arrive (fs.start path) path.pieces
  fs.alter here (Node.setPermissions permissions)

/-- Adds nodes one after another, and gives permissions when all are
    there. -/
def addAll (fs : FileSystem) (additions : List Addition) : Except SystemError FileSystem := do
  let fs ← additions.foldlM FileSystem.add fs
  additions.foldlM (fun fs addition =>
    match addition.permissions with
    | none => .ok fs
    | some permissions => fs.setPermissions addition.path permissions) fs

/-- Where a path leads, its last name not followed: the location of the
    directory, the name, and the node. -/
def find (fs : FileSystem) (path : Path) : Except SystemError (Location × Name × Node) := do
  let (before, name) ← splitLast path
  let here ← fs.arrive (fs.start path) before
  match (fs.root.descend? here).bind (Node.child? name) with
  | some node => .ok (here, name, node)
  | none => .error .notFound

/-- Removes what is at a path, with all that is in it. -/
def remove (fs : FileSystem) (path : Path) : Except SystemError FileSystem := do
  let (here, name, _) ← fs.find path
  fs.alter here (Node.dropChild name)

/-- Moves what is at one path to another. -/
def move (fs : FileSystem) (path destination : Path) : Except SystemError FileSystem := do
  let (here, name, node) ← fs.find path
  let (before, newName) ← splitLast destination
  let there ← fs.arrive (fs.start destination) before
  let fs ← fs.alter here (Node.dropChild name)
  fs.alter there (Node.putChild newName node)

end FileSystem

end TreeSketch
