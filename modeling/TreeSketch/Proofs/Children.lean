import TreeSketch.Proofs.Resolution

/-! # The paths of children

    A listing makes a child's path from its directory's, and the system
    resolves it from its start like any other.  It has the directory's
    pieces and then those of the name (`Path.pieces_child`), so its
    resolution comes by the directory: where the directory's path resolves,
    it goes on from there with the links that are left
    (`FileSystem.exists_leaves`). -/

namespace TreeSketch

namespace Path

/-- A child's path has the pieces of its directory's, an empty one at the
    end left out, and then those of the name. -/
theorem pieces_child (dir : Path) :
    ∃ before, (∀ name, pieces (dir.child name) = before ++ pieces name) ∧
      (pieces dir = before ∨ pieces dir = before ++ [[]]) := by
  by_cases hdir : dir.getLast? = some separator
  · -- the separator leaves an empty last piece, where the name goes
    obtain ⟨start, rfl⟩ := List.getLast?_eq_some_iff.mp hdir
    refine ⟨pieces start, fun name => ?_, Or.inr ?_⟩
    · rw [child, if_pos hdir, List.append_assoc, List.singleton_append]
      exact List.splitOn_append_cons_self start name
    · exact List.splitOn_append_cons_self start []
  · refine ⟨pieces dir, fun name => ?_, Or.inl rfl⟩
    rw [child, if_neg hdir]
    exact List.splitOn_append_cons_self dir name

/-- A child's path goes on from its directory's, by the name or by a
    separator and the name. -/
theorem child_eq_append (dir : Path) (name : Name) :
    ∃ more, dir.child name = dir ++ more ∧ (more = name ∨ more = separator :: name) := by
  rw [child]
  split
  · exact ⟨name, rfl, Or.inl rfl⟩
  · exact ⟨separator :: name, rfl, Or.inr rfl⟩

/-- It holds a NUL byte only where the directory's path or the name does. -/
theorem nul_mem_child_iff {dir : Path} {name : Name} :
    0 ∈ dir.child name ↔ 0 ∈ dir ∨ 0 ∈ name := by
  obtain ⟨more, hchild, rfl | rfl⟩ := child_eq_append dir name
  · rw [hchild, List.mem_append]
  · have hseparator : (0 : UInt8) ≠ separator := by decide
    rw [hchild, List.mem_append, List.mem_cons, or_iff_right hseparator]

theorem child_ne_nil {dir : Path} (h : dir ≠ []) (name : Name) : dir.child name ≠ [] := by
  obtain ⟨more, hchild, -⟩ := child_eq_append dir name
  rw [hchild]
  exact List.append_ne_nil_of_left_ne_nil h more

/-- It is absolute exactly if the directory's is. -/
theorem isAbsolute_child {dir : Path} (h : dir ≠ []) (name : Name) :
    (dir.child name).isAbsolute = dir.isAbsolute := by
  obtain ⟨first, rest, rfl⟩ := List.exists_cons_of_ne_nil h
  obtain ⟨more, hchild, -⟩ := child_eq_append (first :: rest) name
  rw [hchild]
  rfl

/-- A child's path is taken if its directory's is and it is short enough. -/
theorem IsTaken.child {dir : Path} (hdir : dir.IsTaken) {name : Name} (hname : 0 ∉ name)
    (hshort : (dir.child name).length < lengthLimit) : (dir.child name).IsTaken where
  noNul := fun h => (nul_mem_child_iff.mp h).elim hdir.noNul hname
  ne_nil := child_ne_nil hdir.ne_nil name
  short := hshort

/-- The path of what names lead to from a directory. -/
def extend (dir : Path) (location : Location) : Path :=
  location.foldl child dir

end Path

/-- A child's path starts where its directory's does. -/
theorem FileSystem.origin_child (files : FileSystem) {dir : Path} (h : dir ≠ []) (name : Name) :
    files.origin (dir.child name) = files.origin dir := by
  rw [origin, origin, Place.origin, Place.origin, Path.isAbsolute_child h]

/-- That a path leads to a place, and what is asked with a child's path, or
    with more pieces after those of the path, is asked from there with the
    links that are left. -/
structure FileSystem.Leaves (files : FileSystem) (dir : Path) (here : Place) (left : Nat) :
    Prop where
  resolved : files.resolve dir = .ok here
  goesOn : ∃ before, (∀ name, (dir.child name).pieces = before ++ Path.pieces name) ∧
    ∀ more, (Place.top files).resolve Path.linkLimit (files.origin dir) (before ++ more) =
      (Place.top files).resolve left here more

theorem FileSystem.Leaves.resolve_pieces_child {files : FileSystem} {dir : Path} {here : Place}
    {left : Nat} (h : files.Leaves dir here left) (name : Name) :
    (Place.top files).resolve Path.linkLimit (files.origin (dir.child name))
        (dir.child name).pieces =
      (Place.top files).resolve left here (Path.pieces name) := by
  obtain ⟨before, hpieces, hmore⟩ := h.goesOn
  rw [files.origin_child (resolve_eq_ok_iff.mp h.resolved).1.ne_nil, hpieces, hmore]

/-- Every path that resolves leaves some links, no more than it began
    with. -/
theorem FileSystem.exists_leaves {files : FileSystem} {dir : Path} {here : Place}
    (h : files.resolve dir = .ok here) : ∃ left ≤ Path.linkLimit, files.Leaves dir here left := by
  obtain ⟨-, hresolve⟩ := resolve_eq_ok_iff.mp h
  obtain ⟨before, hpieces, hbefore⟩ := Path.pieces_child dir
  have hhere : (Place.top files).resolve Path.linkLimit (files.origin dir) before = .ok here := by
    rcases hbefore with hsame | htrailing
    · rwa [hsame] at hresolve
    · rw [htrailing] at hresolve
      exact Place.resolve_of_append_nil hresolve
  obtain ⟨left, hle, hleft⟩ := Place.exists_left_of_resolve Path.linkLimit hhere
  exact ⟨left, hle, h, before, hpieces, hleft⟩

/-- **ONE STEP**: where a directory's path leads to a directory that may be
    searched, a child's path leads to the child, if that is no link. -/
theorem FileSystem.resolve_child {files : FileSystem} {dir : Path} {here : Place}
    (h : files.resolve dir = .ok here) {permissions : Permissions}
    {children : List (Name × Node)} (hnode : here.node = .directory permissions children)
    (hsearch : permissions.search = true) {name : Name} (hname : name.IsStored) {child : Node}
    (hlookup : children.lookup name = some child) (hlink : ∀ target, child ≠ .link target)
    (hshort : (dir.child name).length < Path.lengthLimit) :
    files.resolve (dir.child name) = .ok (here.enter name child) := by
  obtain ⟨left, -, hleaves⟩ := files.exists_leaves h
  have hstep := Place.step_child hnode hsearch hname hlookup hlink
  refine resolve_eq_ok_iff.mpr ⟨(resolve_eq_ok_iff.mp h).1.child hname.noNul hshort, ?_⟩
  rw [hleaves.resolve_pieces_child, Path.pieces_of_isOrdinary hname.toIsOrdinary]
  -- the name is no link, so it does not matter how many may still be followed
  rw [Place.resolve_cons_of_arrive hstep, Place.resolve_nil]

end TreeSketch
