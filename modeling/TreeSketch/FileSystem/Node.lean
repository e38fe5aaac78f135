import TreeSketch.Path

/-! # The stored tree

    A node is a directory with its permissions and children, a file, a
    pipe, or a symbolic link.  A file system is the node at its root and
    the location of the current directory, which is stored in it.  A place
    is a directory or other node as a resolution arrives at it: the node,
    with the directories above it.  Of a mode only the owner's read and
    search bits of a directory can ever be seen, so these are what is
    kept. -/

namespace TreeSketch

/-- What the owner may do with a directory: list its names, and look names
    up in it. -/
structure Permissions where
  read : Bool
  search : Bool
  deriving DecidableEq, Repr

namespace Permissions

/-- The permissions of a new directory. -/
def granted : Permissions :=
  ⟨true, true⟩

/-- The permissions in a numeric mode: the owner's bits 0400 and 0100. -/
def ofMode (mode : Nat) : Permissions :=
  ⟨mode.testBit 8, mode.testBit 6⟩

/-- The permissions in a mode written in octal digits. -/
def ofOctal? (text : List Char) : Option Permissions :=
  if text.all fun c => '0' ≤ c && c ≤ '7' then
    some (ofMode (text.foldl (fun mode c => 8 * mode + (c.toNat - '0'.toNat)) 0))
  else none

end Permissions

/-- A node of the stored tree. -/
inductive Node where
  /-- A directory, with its children in the order the system lists them. -/
  | directory (permissions : Permissions) (children : List (Name × Node))
  /-- A regular file. -/
  | file
  /-- A pipe: neither a regular file nor a directory. -/
  | pipe
  /-- A symbolic link, to a path from the root or from the directory that
      holds the link. -/
  | link (target : Path)

/-- The names that lead from one node down to another. -/
abbrev Location := List Name

namespace Node

/-- Whether a node is a directory. -/
def isDirectory : Node → Bool
  | directory _ _ => true
  | _ => false

/-- The child `name` of a directory. -/
def child? (name : Name) : Node → Option Node
  | directory _ children => children.lookup name
  | _ => none

/-- The node that names lead to. -/
def descend? : Location → Node → Option Node
  | [], node => some node
  | name :: rest, node => (node.child? name).bind (descend? rest)

end Node

/-- A file system: the node at its root, and the names that lead from there
    to the current directory. -/
structure FileSystem where
  root : Node
  current : Location
  current_isDirectory : (root.descend? current).any Node.isDirectory = true

namespace FileSystem

/-- The name of the only directory in a new file system. -/
def home : Name := [0x68, 0x6F, 0x6D, 0x65]

/-- The file system with nothing in it but the current directory. -/
def empty : FileSystem :=
  ⟨.directory .granted [(home, .directory .granted [])], [home], rfl⟩

end FileSystem

/-- A node together with the directories above it, nearest first, each with
    the name by which the way left it. -/
structure Place where
  node : Node
  above : List (Name × Node)

namespace Place

/-- The root of a file system. -/
def top (fs : FileSystem) : Place :=
  ⟨fs.root, []⟩

/-- The directory above; the root is above itself. -/
def parent (here : Place) : Place :=
  match here.above with
  | [] => here
  | (_, node) :: above => ⟨node, above⟩

/-- The child `name` of this place, whose node is `node`. -/
def enter (here : Place) (name : Name) (node : Node) : Place :=
  ⟨node, (name, here.node) :: here.above⟩

/-- The place that names lead to from here, or the last there is on the way. -/
def descend : Place → Location → Place
  | here, [] => here
  | here, name :: rest =>
    match here.node.child? name with
    | none => here
    | some node => descend (here.enter name node) rest

/-- The current directory of a file system. -/
def current (fs : FileSystem) : Place :=
  (top fs).descend fs.current

/-- The names that lead to this place from the root. -/
def location (here : Place) : Location :=
  (here.above.map Prod.fst).reverse

@[simp]
theorem location_enter (here : Place) (name : Name) (node : Node) :
    (here.enter name node).location = here.location ++ [name] :=
  List.reverse_cons

/-- Names that lead somewhere lead there from a place. -/
theorem descend_of_descend? {location : Location} :
    ∀ {here : Place} {below : Node}, here.node.descend? location = some below →
      (here.descend location).node = below ∧
        (here.descend location).location = here.location ++ location := by
  induction location with
  | nil =>
      intro here below h
      exact ⟨Option.some.inj h, (List.append_nil _).symm⟩
  | cons name rest ih =>
      intro here below h
      obtain ⟨child, hchild, hrest⟩ := Option.bind_eq_some_iff.mp h
      have hbelow : (here.enter name child).node.descend? rest = some below := hrest
      obtain ⟨hnode, hlocation⟩ := ih hbelow
      rw [descend, hchild]
      exact ⟨hnode, by rw [hlocation, location_enter, List.append_assoc, List.singleton_append]⟩

/-- **THE CURRENT DIRECTORY** is a directory, and stored where the file system
    has it. -/
theorem current_spec (fs : FileSystem) :
    (current fs).node.isDirectory = true ∧ (current fs).location = fs.current := by
  obtain ⟨below, hbelow, hdir⟩ := (Option.any_eq_true _ _).mp fs.current_isDirectory
  have htop : (top fs).node.descend? fs.current = some below := hbelow
  obtain ⟨hnode, hlocation⟩ := descend_of_descend? htop
  rw [current, hnode]
  exact ⟨hdir, hlocation⟩

end Place

end TreeSketch
