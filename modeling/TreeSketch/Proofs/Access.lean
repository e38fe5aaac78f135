import TreeSketch.Proofs.Children
import TreeSketch.Proofs.Course
import TreeSketch.Proofs.Depth
import TreeSketch.Proofs.Locations

/-! # What can make a drawing fail

    An entry is drawn as a directory only if its path resolves to one, and
    it is listed by that same path: so whatever keeps a path from resolving
    has already made its entry a file.  All that is left to go wrong below
    the root is a directory's read bit (`Trail.readBit_target`), and
    `render_fails_unreadable` says that a drawing fails by nothing else.

    Which directories a walk can come to is bounded by any set of places
    that has the root's and is kept by what is stored in it, links followed
    (`FileSystem.Encloses`): along a trail no path leads out of it. -/

namespace TreeSketch

/-- That a path leads to a directory with this read bit. -/
def FileSystem.ReadBit (files : FileSystem) (path : Path) (bit : Bool) : Prop :=
  ∃ place permissions children, files.resolve path = .ok place ∧
    place.node = .directory permissions children ∧ permissions.read = bit

namespace FileSystem

variable {files : FileSystem} {path : Path}

theorem exists_readNames_iff :
    (∃ names, files.readNames path = .ok names) ↔ files.ReadBit path true := by
  constructor
  · rintro ⟨names, h⟩
    obtain ⟨place, permissions, children, hresolve, hnode, hread, -⟩ := readNames_eq_ok h
    exact ⟨place, permissions, children, hresolve, hnode, hread⟩
  · rintro ⟨place, permissions, children, hresolve, hnode, hread⟩
    refine ⟨children.map Prod.fst, ?_⟩
    simp [readNames, hresolve, hnode, hread]

theorem readNames_of_unreadable (h : files.ReadBit path false) :
    files.readNames path = .error (.system .permissionDenied) := by
  obtain ⟨place, permissions, children, hresolve, hnode, hread⟩ := h
  simp [readNames, hresolve, hnode, hread]

/-- A path that leads to a directory finds its read bit set or not. -/
theorem readBit_of_resolve {place : Place} (h : files.resolve path = .ok place)
    (hdir : place.node.isDirectory = true) : ∃ bit, files.ReadBit path bit := by
  obtain ⟨permissions, children, hnode⟩ := Node.exists_directory_of_isDirectory hdir
  exact ⟨permissions.read, place, permissions, children, h, hnode, rfl⟩

theorem exists_listing_iff :
    (∃ listing, files.list path = .ok listing) ↔ ∃ names, files.readNames path = .ok names := by
  rw [list]
  cases files.readNames path with
  | error cause => simp
  | ok names => simp

end FileSystem

/-- A directory that is tried and is no obstacle can be read. -/
theorem Trail.readable_of_obstacle {files : FileSystem} {root : Path} {depth : Nat}
    {trail : Trail} (htried : trail.isTried depth = true)
    (h : Trail.obstacle files.list root depth trail = none) :
    ∃ names, files.readNames (trail.target root) = .ok names := by
  rw [obstacle, if_pos htried, FileSystem.obstacle_list] at h
  cases hread : files.readNames (trail.target root) with
  | error cause => rw [hread] at h; cases h
  | ok names => exact ⟨names, rfl⟩

/-- What a walk goes into below the root is a directory, whatever links lead
    to it. -/
theorem Trail.readBit_target {files : FileSystem} {root : Path} {trail : Trail}
    (hne : trail ≠ []) (h : Descends files.list root trail) (hdir : isDirectory trail = true) :
    ∃ bit, files.ReadBit (target root trail) bit := by
  obtain ⟨above, spot, rfl⟩ := (List.eq_nil_or_concat trail).resolve_left hne
  rw [List.concat_eq_append] at h hdir ⊢
  obtain ⟨-, -, hlists⟩ := descends_concat.mp h
  obtain ⟨names, -, name, -, heq⟩ := Spot.exists_name hlists
  rw [isDirectory_concat, heq] at hdir
  obtain ⟨place, hresolve, hplace⟩ := FileSystem.resolve_of_isDirectory hdir
  rw [target_concat, heq]
  exact FileSystem.readBit_of_resolve hresolve hplace

/-- So what stops a drawing below the root is a directory without its read
    bit. -/
theorem Lister.unreadable_of_stop? {files : FileSystem} {maxLevel : Nat} {root : Path}
    {trail : Trail} {e : Error} (h : Lister.stop? files.list maxLevel root = some (trail, e))
    (hne : trail ≠ []) :
    e = .access (trail.target root) (.system .permissionDenied) ∧
      files.ReadBit (trail.target root) false := by
  obtain ⟨cause, rfl, hcause⟩ := FileSystem.access_of_stop? h
  obtain ⟨hobstacle, -⟩ := stop?_eq_some.mp h
  obtain ⟨hdir, -⟩ := Bool.and_eq_true_iff.mp (Trail.isTried_of_obstacle hobstacle)
  -- the path leads to a directory all the same, so its read bit is all that is left
  obtain ⟨bit, hbit⟩ := Trail.readBit_target hne (descends_of_stop? h) hdir
  cases bit with
  | true =>
      obtain ⟨names, hnames⟩ := FileSystem.exists_readNames_iff.mpr hbit
      cases hnames.symm.trans hcause
  | false =>
      have hdenied := FileSystem.readNames_of_unreadable hbit
      obtain rfl := Except.error.inj (hdenied.symm.trans hcause)
      exact ⟨rfl, hbit⟩

/-- That a node can be listed, if it is a directory. -/
def Node.IsReadable (node : Node) : Prop :=
  ∀ permissions children, node = .directory permissions children → permissions.read = true

/-! ## Where a walk stays -/

/-- That places enclose all that a name stored in one of them leads to, links
    followed. -/
def FileSystem.Encloses (files : FileSystem) (S : Place → Prop) : Prop :=
  ∀ here name child there, S here → here.node.child? name = some child →
    (Place.top files).resolve Path.linkLimit here (Path.pieces name) = .ok there → S there

namespace FileSystem

variable {files : FileSystem} {S : Place → Prop}

/-- So they enclose what the entries of a directory among them lead to. -/
theorem Encloses.spot (hS : files.Encloses S) {dir : Path} {spot : Spot}
    (hlists : Lister.Lists files.list dir spot.siblings)
    (hdir : ∀ here, files.resolve dir = .ok here → S here) :
    ∀ there, files.resolve spot.entry.path = .ok there → S there := by
  intro there hthere
  obtain ⟨names, hread, name, hname, hentry⟩ := Spot.exists_name hlists
  obtain ⟨here, permissions, children, hresolve, hnode, -, rfl⟩ := readNames_eq_ok hread
  obtain ⟨child, hchild⟩ : ∃ child, here.node.child? name = some child := by
    rw [Node.exists_child?_iff, hnode]
    exact hname
  obtain ⟨left, hle, hleaves⟩ := files.exists_leaves hresolve
  have hpath : spot.entry.path = dir.child name := by rw [hentry]; rfl
  rw [hpath] at hthere
  have hleft : (Place.top files).resolve left here (Path.pieces name) = .ok there := by
    rw [← hleaves.resolve_pieces_child]
    exact (resolve_eq_ok_iff.mp hthere).2
  -- what some links suffice for, more do as well
  have hmore := Place.resolve_mono hle (by rw [hleft]; exact fun h => nomatch h)
  exact hS here name child there (hdir here hresolve) hchild (hmore.trans hleft)

/-- **A WALK STAYS** in what encloses its root. -/
theorem Encloses.target (hS : files.Encloses S) {root : Path} {trail : Trail}
    (h : Trail.Descends files.list root trail) :
    (∀ here, files.resolve root = .ok here → S here) →
      ∀ there, files.resolve (trail.target root) = .ok there → S there := by
  induction h with
  | stay dir => intro hdir; exact hdir
  | @enter dir spot rest hlists _ _ ih =>
      intro hdir
      rw [Trail.target_cons]
      exact ih (hS.spot hlists hdir)

/-- All that is stored encloses itself. -/
theorem encloses_all {P : Node → Prop} (hP : Node.PassesDown P) (hroot : P files.root) :
    files.Encloses fun here => here.All P := by
  intro here name child there hhere _ hresolve
  have htop : (Place.top files).All P := ⟨hroot, List.forall_mem_nil _⟩
  exact Place.resolve_invariant htop (fun _ _ _ hall => hall.step hP) Path.linkLimit hhere hresolve

end FileSystem

section Render

variable {files : FileSystem} {maxLevel : Nat} {root : Path}

/-- On another path than the root's a drawing fails for want of a read bit. -/
theorem unreadable_of_result_error {path : Path} {cause : Cause}
    (h : (render files.list maxLevel root .unlimited).result = .error (.access path cause))
    (hpath : path ≠ root) : cause = .system .permissionDenied ∧ files.ReadBit path false := by
  obtain ⟨trail, hstop⟩ := result_eq_error_iff.mp h
  have hne : trail ≠ [] := by
    rintro rfl
    obtain ⟨cause', heq, -⟩ := FileSystem.access_of_stop? hstop
    exact hpath (Error.access.inj heq).1
  obtain ⟨heq, hbit⟩ := Lister.unreadable_of_stop? hstop hne
  obtain ⟨rfl, rfl⟩ := Error.access.inj heq
  exact ⟨rfl, hbit⟩

/-- A drawing that has a level to draw succeeds exactly if it can list the
    root and read every directory above its last level. -/
theorem result_isOk_iff_readBit (hlevel : 1 ≤ maxLevel) :
    (∃ stats, (render files.list maxLevel root .unlimited).result = .ok stats) ↔
      (∃ listing, files.list root = .ok listing) ∧
        ∀ trail : Trail, trail ≠ [] → trail.Descends files.list root →
          trail.isDirectory = true → trail.length < maxLevel →
          files.ReadBit (trail.target root) true := by
  rw [result_isOk_iff, Lister.stop?_eq_none_iff_root_below]
  constructor
  · rintro ⟨hroot, hclear⟩
    have htried : Trail.isTried maxLevel [] = true := decide_eq_true hlevel
    refine ⟨FileSystem.exists_listing_iff.mpr (Trail.readable_of_obstacle htried hroot), ?_⟩
    intro trail hne hdesc hdir hlen
    have htried : trail.isTried maxLevel = true := by simp [Trail.isTried, hdir, hlen]
    have hmem : trail ∈ Lister.trails files.list maxLevel root :=
      Lister.mem_trails.mpr ⟨List.length_pos_iff.mpr hne, Nat.le_of_lt hlen, hdesc⟩
    exact FileSystem.exists_readNames_iff.mp (Trail.readable_of_obstacle htried (hclear trail hmem))
  · rintro ⟨hlisting, hbits⟩
    constructor
    · exact Trail.obstacle_list_of_readable fun _ => FileSystem.exists_listing_iff.mp hlisting
    · intro trail htrail
      obtain ⟨-, -, hdesc⟩ := Lister.mem_trails.mp htrail
      refine Trail.obstacle_list_of_readable fun htried => FileSystem.exists_readNames_iff.mpr ?_
      obtain ⟨hdir, hlen⟩ := Bool.and_eq_true_iff.mp htried
      exact hbits trail (Lister.ne_nil_of_mem_trails htrail) hdesc hdir (of_decide_eq_true hlen)

/-- Where all directories may be read that a walk can come to, only the root
    can make a drawing fail. -/
theorem list_eq_error_of_readable {S : Place → Prop} (hS : files.Encloses S)
    (hroot : ∀ here, files.resolve root = .ok here → S here)
    (hreadable : ∀ here, S here → here.node.IsReadable) {e : Error}
    (h : (render files.list maxLevel root .unlimited).result = .error e) :
    (∃ cause, e = .access root cause) ∧ files.list root = .error e := by
  obtain ⟨trail, hstop⟩ := result_eq_error_iff.mp h
  by_cases hnil : trail = []
  · subst hnil
    obtain ⟨cause, rfl, hcause⟩ := FileSystem.access_of_stop? hstop
    refine ⟨⟨cause, rfl⟩, ?_⟩
    rw [FileSystem.list, show files.readNames root = .error cause from hcause]
    rfl
  · -- below the root only a missing read bit could have stopped it
    obtain ⟨-, place, permissions, children, hresolve, hnode, hbit⟩ :=
      Lister.unreadable_of_stop? hstop hnil
    have hplace := hS.target (Lister.descends_of_stop? hstop) hroot place hresolve
    rw [hreadable place hplace permissions children hnode] at hbit
    cases hbit

end Render

/-- **FAILURE**: let at least one level be drawn.  A drawing that fails on
    another path than the root's fails for want of permission, on a
    directory without its read bit.  It succeeds exactly if the root can be
    listed and every directory that it comes to above its last level has
    its read bit.  So it never fails below the root where all directories
    have theirs in some places that enclose the root's, and all the more
    where all there are have theirs. -/
theorem render_fails_unreadable {maxLevel : Nat} (hlevel : 1 ≤ maxLevel) (files : FileSystem)
    (root : Path) :
    (∀ path cause,
      (render files.list maxLevel root .unlimited).result = .error (.access path cause) →
      path ≠ root → cause = .system .permissionDenied ∧ files.ReadBit path false) ∧
    ((∃ stats, (render files.list maxLevel root .unlimited).result = .ok stats) ↔
      (∃ listing, files.list root = .ok listing) ∧
        ∀ trail : Trail, trail ≠ [] → trail.Descends files.list root →
          trail.isDirectory = true → trail.length < maxLevel →
          files.ReadBit (trail.target root) true) ∧
    (∀ S : Place → Prop, files.Encloses S → (∀ here, files.resolve root = .ok here → S here) →
      (∀ here, S here → here.node.IsReadable) →
      ∀ e, (render files.list maxLevel root .unlimited).result = .error e →
        (∃ cause, e = .access root cause) ∧ files.list root = .error e) ∧
    (files.root.Throughout Node.IsReadable →
      ∀ e, (render files.list maxLevel root .unlimited).result = .error e →
        (∃ cause, e = .access root cause) ∧ files.list root = .error e) := by
  refine ⟨fun _ _ => unreadable_of_result_error, result_isOk_iff_readBit hlevel,
    fun _ hS hroot hreadable _ => list_eq_error_of_readable hS hroot hreadable, ?_⟩
  intro hreadable e
  have hpasses := Node.throughout_passesDown Node.IsReadable
  refine list_eq_error_of_readable (FileSystem.encloses_all hpasses hreadable) ?_ ?_
  · intro here hhere
    exact FileSystem.all_of_resolve hpasses hreadable hhere
  · intro here hhere
    exact hhere.node.here

/-- In a directory beside the current one: a link to nothing, a link to
    itself, a pipe, a directory that may not be searched and a link through
    it; and last an absolute link to a directory that may not be read. -/
def roughTree : FileSystem :=
  ⟨.directory .granted
    [([0x68], .directory .granted []),
      ([0x77], .directory .granted
        [([0x61], .link [0x2F, 0x67]), ([0x62], .link [0x62]), ([0x63], .pipe),
          ([0x64], .directory ⟨true, false⟩ [([0x78], .directory .granted [])]),
          ([0x65], .link [0x64, 0x2F, 0x78]), ([0x6C], .link [0x2F, 0x77, 0x2F, 0x7A]),
          ([0x7A], .directory ⟨false, true⟩ [])])], [[0x68]], rfl⟩

/-- The root is spelled as an absolute path. -/
theorem render_fails_unreadable_rough :
    1 ≤ 3 ∧
      (render roughTree.list 3 [0x2F, 0x77] .unlimited).result =
        .error (.access [0x2F, 0x77, 0x2F, 0x6C] (.system .permissionDenied)) ∧
      roughTree.ReadBit [0x2F, 0x77, 0x2F, 0x6C] false ∧
      (render roughTree.list 3 [0x2F, 0x77] .unlimited).sink.held =
        Text.encode "├── a\n├── b\n├── c\n├── d/\n│   └── x\n├── e\n├── l/\n" := by
  have hlevel : 1 ≤ 3 := by decide
  have hresult : (render roughTree.list 3 [0x2F, 0x77] .unlimited).result =
      .error (.access [0x2F, 0x77, 0x2F, 0x6C] (.system .permissionDenied)) := by cbv
  obtain ⟨hfails, -⟩ := render_fails_unreadable hlevel roughTree [0x2F, 0x77]
  obtain ⟨-, hbit⟩ := hfails _ _ hresult (by decide)
  exact ⟨hlevel, hresult, hbit, by cbv⟩

end TreeSketch
