import TreeSketch.Entry
import TreeSketch.FileSystem.Resolve

/-! # Listing a directory

    The names of a directory are put into the order of their raw bytes
    before anything else is asked of them.  Each entry is then examined
    through its path, links followed: what leads to a directory is one,
    and whatever leads elsewhere or nowhere is a file.  A path that leads
    nowhere is noted with its cause and fails nothing. -/

namespace TreeSketch

namespace Name

/-- The names in the order of their bytes. -/
def sort (names : List Name) : List Name :=
  names.mergeSort fun a b => decide (a ≤ b)

theorem sort_perm (names : List Name) : (sort names).Perm names :=
  names.mergeSort_perm _

/-- Sorted names are in the order of their bytes. -/
theorem sort_ordered (names : List Name) : (sort names).Pairwise (· ≤ ·) := by
  have htrans : ∀ a b c : Name, decide (a ≤ b) = true → decide (b ≤ c) = true →
      decide (a ≤ c) = true := by
    intro a b c hab hbc
    exact decide_eq_true (List.le_trans (of_decide_eq_true hab) (of_decide_eq_true hbc))
  have htotal : ∀ a b : Name, (decide (a ≤ b) || decide (b ≤ a)) = true := by
    intro a b
    simpa using List.le_total a b
  exact (List.pairwise_mergeSort htrans htotal names).imp of_decide_eq_true

end Name

/-- A listed directory: its entries, and the entries' paths that lead
    nowhere, each with the cause. -/
structure Listing where
  entries : List Entry
  unexamined : List (Path × Cause)
  deriving DecidableEq, Repr

namespace FileSystem

/-- What the entry at a path is drawn as. -/
def kindAt (fs : FileSystem) (path : Path) : EntryKind :=
  match fs.resolve path with
  | .ok place => if place.node.isDirectory then .directory else .file
  | .error _ => .file

/-- Why a path leads nowhere, if it does. -/
def failureAt (fs : FileSystem) (path : Path) : Option (Path × Cause) :=
  match fs.resolve path with
  | .ok _ => none
  | .error cause => some (path, cause)

/-- The entry `name` of the directory at `dir`. -/
def entryAt (fs : FileSystem) (dir : Path) (name : Name) : Entry :=
  ⟨Text.decodeLossy name, dir.child name, fs.kindAt (dir.child name)⟩

/-- Lists the directory at `dir`, in the order of its entries' raw names. -/
def list (fs : FileSystem) (dir : Path) : Except Error Listing :=
  match fs.readNames dir with
  | .error cause => .error (.access dir cause)
  | .ok names =>
    let sorted := Name.sort names
    .ok ⟨sorted.map (fs.entryAt dir), sorted.filterMap fun name => fs.failureAt (dir.child name)⟩

end FileSystem

end TreeSketch
