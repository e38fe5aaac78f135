import TreeSketch.Proofs.Access
import TreeSketch.Proofs.Locations

/-! # Drawing the stored tree

    A drawing goes by paths, each resolved anew from its start; the stored
    tree is walked from node to child.  Without links the two agree: a
    child's path leads to the child (`Reaches.resolve_child`), whatever
    spelling of its directory it was made from, so the listing of a
    directory is its children in order, and `Reaches.forall₂_shows` matches
    the trails with the locations below a node.  `render_agrees_with_tree`
    says it of whole drawings. -/

namespace TreeSketch

/-! ## Where a walk may go -/

/-- That nothing hinders a walk to a depth below a node that `dir` leads to:
    the directories above that depth may be read and searched, and those
    down to it have paths that are short enough. -/
structure Node.IsOpen (node : Node) (dir : Path) (depth : Nat) : Prop where
  granted : ∀ location permissions children, location.length < depth →
    node.descend? location = some (.directory permissions children) →
      permissions.read = true ∧ permissions.search = true
  short : ∀ location below, location.length ≤ depth → node.descend? location = some below →
    below.isDirectory = true → (dir.extend location).length < Path.lengthLimit

theorem Node.IsOpen.child {node child : Node} {dir : Path} {depth : Nat}
    (h : node.IsOpen dir (depth + 1)) {name : Name} (hchild : node.child? name = some child) :
    child.IsOpen (dir.child name) depth where
  granted := by
    intro location permissions children hlen hbelow
    exact h.granted (name :: location) permissions children (Nat.succ_lt_succ hlen)
      (Node.descend?_cons_eq_some_iff.mpr ⟨child, hchild, hbelow⟩)
  short := by
    intro location below hlen hbelow hdir
    exact h.short (name :: location) below (Nat.succ_le_succ hlen)
      (Node.descend?_cons_eq_some_iff.mpr ⟨child, hchild, hbelow⟩) hdir

/-- That a directory may be read and searched. -/
def Node.IsGranted (node : Node) : Prop :=
  ∀ permissions children, node = .directory permissions children →
    permissions.read = true ∧ permissions.search = true

/-- Names of stored nodes make a path longer by 256 bytes each at most. -/
theorem Path.length_extend_le {location : Location} :
    ∀ {node below : Node} (dir : Path), node.Throughout Node.WellNamed →
      node.descend? location = some below →
      (dir.extend location).length ≤ dir.length + 256 * location.length := by
  induction location with
  | nil => intro _ _ dir _ _; exact Nat.le_refl _
  | cons name rest ih =>
      intro node below dir hnames hbelow
      obtain ⟨child, hchild, hrest⟩ := Node.descend?_cons_eq_some_iff.mp hbelow
      have hname : name.length ≤ 255 :=
        (hnames.here.stored _ (Node.mem_children_of_child? hchild)).length_le
      have hstep : (dir.child name).length ≤ dir.length + 256 := by
        obtain ⟨more, hmore, rfl | rfl⟩ := child_eq_append dir name
        · rw [hmore, List.length_append]
          omega
        · rw [hmore, List.length_append, List.length_cons]
          omega
      have hlast : ((dir.child name).extend rest).length ≤ _ :=
        ih (dir.child name) (hnames.child? hchild) hrest
      rw [List.length_cons]
      show ((dir.child name).extend rest).length ≤ _
      omega

/-- Nothing hinders a walk where everything is granted and the depth is
    small. -/
theorem Node.isOpen_of_granted {node : Node} {dir : Path} {depth : Nat}
    (hgranted : node.Throughout Node.IsGranted) (hnames : node.Throughout Node.WellNamed)
    (hshort : dir.length + 256 * depth < Path.lengthLimit) : node.IsOpen dir depth where
  granted := by
    intro location permissions children _ hbelow
    exact (hgranted.descend? hbelow).here permissions children rfl
  short := by
    intro location below hlen hbelow _
    have hlength := Path.length_extend_le dir hnames hbelow
    have hdepth : 256 * location.length ≤ 256 * depth := Nat.mul_le_mul_left 256 hlen
    omega

/-- That a path leads to a directory below which a walk may go to a depth,
    and all names are in order and none is a link's. -/
structure FileSystem.Reaches (files : FileSystem) (dir : Path) (node : Node) (depth : Nat) :
    Prop where
  resolved : ∃ here, files.resolve dir = .ok here ∧ here.node = node
  isDirectory : node.isDirectory = true
  named : node.Throughout Node.WellNamed
  linkless : node.Throughout Node.NotLink
  isOpen : node.IsOpen dir depth

namespace FileSystem.Reaches

variable {files : FileSystem} {dir : Path} {node : Node} {depth : Nat}

/-- The node is a directory that may be read and searched. -/
theorem exists_directory (h : files.Reaches dir node (depth + 1)) :
    ∃ permissions children, node = .directory permissions children ∧
      permissions.read = true ∧ permissions.search = true := by
  obtain ⟨permissions, children, rfl⟩ := Node.exists_directory_of_isDirectory h.isDirectory
  exact ⟨permissions, children, rfl,
    h.isOpen.granted [] permissions children (Nat.succ_pos depth) rfl⟩

/-- A child's path that is short enough leads to the child. -/
theorem resolve_child (h : files.Reaches dir node (depth + 1)) {name : Name} {child : Node}
    (hchild : node.child? name = some child)
    (hshort : (dir.child name).length < Path.lengthLimit) :
    ∃ there, files.resolve (dir.child name) = .ok there ∧ there.node = child := by
  obtain ⟨here, hresolve, hhere⟩ := h.resolved
  obtain ⟨permissions, children, rfl, -, hsearch⟩ := h.exists_directory
  have hstored := h.named.here.stored _ (Node.mem_children_of_child? hchild)
  exact ⟨_, files.resolve_child hresolve hhere hsearch hstored hchild
    (h.linkless.child? hchild).here hshort, rfl⟩

/-- **ONE STEP DOWN**: what holds of a directory holds of the directories in
    it, one level less deep. -/
theorem child (h : files.Reaches dir node (depth + 1)) {name : Name} {child : Node}
    (hchild : node.child? name = some child) (hdir : child.isDirectory = true) :
    files.Reaches (dir.child name) child depth where
  resolved := by
    have hopen := h.isOpen.child hchild
    exact h.resolve_child hchild (hopen.short [] child (Nat.zero_le depth) rfl hdir)
  isDirectory := hdir
  named := h.named.child? hchild
  linkless := h.linkless.child? hchild
  isOpen := h.isOpen.child hchild

/-- A child is drawn as a directory exactly if it is one.  A path that is too
    long does not change that: only a file can have one. -/
theorem isDirectory_entryAt (h : files.Reaches dir node (depth + 1)) {name : Name} {child : Node}
    (hchild : node.child? name = some child) :
    (files.entryAt dir name).isDirectory = child.isDirectory := by
  cases hdir : child.isDirectory with
  | true =>
      obtain ⟨there, hthere, rfl⟩ := (h.child hchild hdir).resolved
      have hkind : files.kindAt (dir.child name) = .directory := by
        rw [kindAt, hthere]
        exact if_pos hdir
      exact decide_eq_true hkind
  | false =>
      by_contra hentry
      obtain ⟨place, hplace, hisdir⟩ := resolve_of_isDirectory (eq_true_of_ne_false hentry)
      obtain ⟨there, hthere, rfl⟩ := h.resolve_child hchild (resolve_eq_ok_iff.mp hplace).1.short
      obtain rfl := Except.ok.inj (hplace.symm.trans hthere)
      cases hisdir.symm.trans hdir

theorem readNames_eq (h : files.Reaches dir node (depth + 1)) :
    files.readNames dir = .ok (node.children.map Prod.fst) := by
  obtain ⟨here, hresolve, hhere⟩ := h.resolved
  obtain ⟨permissions, children, rfl, hread, -⟩ := h.exists_directory
  simp [readNames, hresolve, hhere, hread, Node.children]

/-- The directory is listed with its children's names, in order. -/
theorem list_eq (h : files.Reaches dir node (depth + 1)) :
    ∃ listing, files.list dir = .ok listing ∧
      listing.entries = (Name.sort (node.children.map Prod.fst)).map (files.entryAt dir) :=
  ⟨_, by rw [list, h.readNames_eq], rfl⟩

end FileSystem.Reaches

/-! ## Trails and locations -/

/-- That a trail from `dir` shows what names lead to from a node: its entries
    have these names, it ends at their path, and it is drawn as a directory
    exactly if they lead to one. -/
structure Trail.Shows (node : Node) (dir : Path) (location : Location) (trail : Trail) : Prop where
  names : trail.map (fun spot => spot.entry.name) = location.map Text.decodeLossy
  path : trail.target dir = dir.extend location
  kind : ∃ below, node.descend? location = some below ∧ trail.isDirectory = below.isDirectory

namespace Trail

variable {files : FileSystem} {dir : Path} {node child : Node} {name : Name} {spot : Spot}

theorem Shows.length_eq {location : Location} {trail : Trail} (h : Shows node dir location trail) :
    trail.length = location.length := by
  simpa using congrArg List.length h.names

theorem Shows.any_kind {location : Location} {trail : Trail} (h : Shows node dir location trail)
    (f : Bool → Bool) :
    ((node.descend? location).any fun below => f below.isDirectory) = f trail.isDirectory := by
  obtain ⟨below, hbelow, hkind⟩ := h.kind
  rw [hbelow, hkind]
  rfl

theorem shows_singleton (hentry : spot.entry = files.entryAt dir name)
    (hchild : node.child? name = some child)
    (hdir : spot.entry.isDirectory = child.isDirectory) : Shows node dir [name] [spot] where
  names := by rw [List.map_singleton, hentry]; rfl
  path := by
    show spot.entry.path = dir.child name
    rw [hentry]
    rfl
  kind := ⟨child, Node.descend?_cons_eq_some_iff.mpr ⟨child, hchild, rfl⟩, hdir⟩

/-- Behind the spot of a directory a trail shows what the child's name and the
    location lead to. -/
theorem Shows.cons {location : Location} {trail : Trail}
    (h : Shows child (dir.child name) location trail) (hdir : spot.entry.isDirectory = true)
    (hentry : spot.entry = files.entryAt dir name) (hchild : node.child? name = some child) :
    Shows node dir (name :: location) (spot :: trail) where
  names := by rw [List.map_cons, List.map_cons, h.names, hentry]; rfl
  path := by
    rw [target_cons, hentry]
    exact h.path
  kind := by
    obtain ⟨below, hbelow, hkind⟩ := h.kind
    rw [isDirectory_cons_of_directory hdir]
    exact ⟨below, Node.descend?_cons_eq_some_iff.mpr ⟨child, hchild, hbelow⟩, hkind⟩

end Trail

/-- Lists of names and of the entries made from them match, part by part, if
    the parts do. -/
theorem Spot.forall₂_flatMap_onward {α β : Type} {R : α → β → Prop} {f : Name → Entry}
    {as : Name → List α} {bs : Spot → List β} {names : List Name}
    (h : ∀ name ∈ names, ∀ spot : Spot, spot.entry = f name → List.Forall₂ R (as name) (bs spot)) :
    ∀ passed : List Entry,
      List.Forall₂ R (names.flatMap as) ((onward passed (names.map f)).flatMap bs) := by
  induction names with
  | nil => intro _; exact List.Forall₂.nil
  | cons name rest ih =>
      intro passed
      obtain ⟨hname, hrest⟩ := List.forall_mem_cons.mp h
      rw [List.map_cons, onward, List.flatMap_cons, List.flatMap_cons]
      exact List.rel_append (hname _ rfl) (ih hrest _)

/-- **TRAILS ARE LOCATIONS**: the trails below a path show the locations below
    the node that it leads to, one for one and in order. -/
theorem FileSystem.Reaches.forall₂_shows {files : FileSystem} {depth : Nat} :
    ∀ {dir : Path} {node : Node}, files.Reaches dir node depth →
      List.Forall₂ (Trail.Shows node dir) (node.locations depth)
        (Lister.trails files.list depth dir) := by
  -- entries match names, and what is below a directory's entry the locations below the child
  induction depth with
  | zero => intro dir node _; exact List.Forall₂.nil
  | succ depth ih =>
      intro dir node h
      obtain ⟨listing, hlist, hentries⟩ := h.list_eq
      rw [Node.locations, Lister.trails_of_ok hlist, hentries]
      refine Spot.forall₂_flatMap_onward ?_ []
      intro name hname spot hentry
      obtain ⟨child, hchild⟩ :=
        Node.exists_child?_iff.mpr ((Name.sort_perm _).mem_iff.mp hname)
      have hdir : spot.entry.isDirectory = child.isDirectory := by
        rw [hentry, h.isDirectory_entryAt hchild]
      have hpath : spot.entry.path = dir.child name := by rw [hentry]; rfl
      rw [Node.locationsFrom_of_child? hchild]
      refine List.Forall₂.cons (Trail.shows_singleton hentry hchild hdir) ?_
      by_cases hisdir : child.isDirectory = true
      · have hspot := hdir.trans hisdir
        rw [if_pos hspot, hpath, List.forall₂_map_left_iff, List.forall₂_map_right_iff]
        exact (ih (h.child hchild hisdir)).imp fun location trail hshows =>
          hshows.cons hspot hentry hchild
      · rw [hdir, if_neg hisdir, Node.locations_of_not_directory hisdir]
        exact List.Forall₂.nil

/-- **ALL STEPS DOWN**: so resolving the path that names make is stepping from
    node to child. -/
theorem FileSystem.Reaches.descend {files : FileSystem} {location : Location} :
    ∀ {dir : Path} {node below : Node} {depth : Nat}, files.Reaches dir node depth →
      location.length ≤ depth → node.descend? location = some below →
      below.isDirectory = true →
      files.Reaches (dir.extend location) below (depth - location.length) := by
  -- on the names; each takes one level of the depth
  induction location with
  | nil =>
      intro dir node below depth h _ hbelow _
      exact Option.some.inj hbelow ▸ h
  | cons name rest ih =>
      intro dir node below depth h hlen hbelow hdir
      obtain ⟨child, hchild, hrest⟩ := Node.descend?_cons_eq_some_iff.mp hbelow
      obtain ⟨less, rfl⟩ := Nat.exists_eq_add_of_le' (Nat.le_trans (Nat.succ_pos _) hlen)
      have hstep := h.child hchild (Node.isDirectory_of_descend? hrest hdir)
      have hlast := ih hstep (Nat.le_of_succ_le_succ hlen) hrest hdir
      rwa [List.length_cons, Nat.add_sub_add_right]

/-- So nothing stands in the way of a drawing. -/
theorem FileSystem.Reaches.stop?_eq_none {files : FileSystem} {dir : Path} {node : Node}
    {depth : Nat} (h : files.Reaches dir node depth) : Lister.stop? files.list depth dir = none := by
  have hreadable : ∀ {location below}, location.length < depth →
      node.descend? location = some below → below.isDirectory = true →
      ∃ names, files.readNames (dir.extend location) = .ok names := by
    intro location below hlen hbelow hdir
    have hthere := h.descend (Nat.le_of_lt hlen) hbelow hdir
    obtain ⟨less, hless⟩ := Nat.exists_eq_add_of_le' (Nat.sub_pos_of_lt hlen)
    rw [hless] at hthere
    exact ⟨_, hthere.readNames_eq⟩
  refine Lister.stop?_eq_none_iff_root_below.mpr ⟨?_, ?_⟩
  · refine Trail.obstacle_list_of_readable fun htried => ?_
    exact hreadable (of_decide_eq_true htried : ([] : Location).length < depth) rfl h.isDirectory
  · intro trail htrail
    refine Trail.obstacle_list_of_readable fun htried => ?_
    obtain ⟨hdir, hlen⟩ := Bool.and_eq_true_iff.mp htried
    obtain ⟨location, hshows⟩ := exists_left_of_forall₂ h.forall₂_shows htrail
    obtain ⟨below, hbelow, hkind⟩ := hshows.kind
    rw [hshows.path]
    refine hreadable ?_ hbelow (hkind.symm.trans hdir)
    rw [← hshows.length_eq]
    exact of_decide_eq_true hlen

/-- **THE STORED TREE**: take a file system without links, whose names are in
    order, and a root that leads to a directory below which a walk may go
    down to the last level.  Then the drawing succeeds, and its lines are
    those of the locations below that directory, down to that level: each
    exactly once, in the order of the names on the way, right below what
    else is below its parent, and as a directory exactly if it leads to
    one.  The counts are the numbers of locations that lead to directories
    and to others. -/
theorem render_agrees_with_tree {files : FileSystem} {root : Path} {place : Place}
    {maxLevel : Nat} (hroot : files.resolve root = .ok place)
    (hdir : place.node.isDirectory = true) (hnames : files.root.Throughout Node.WellNamed)
    (hlinks : files.root.Throughout Node.NotLink) (hopen : place.node.IsOpen root maxLevel) :
    ∃ locations trails,
      (∀ location, location ∈ locations ↔ 1 ≤ location.length ∧ location.length ≤ maxLevel ∧
        ∃ below, place.node.descend? location = some below) ∧
      locations.Pairwise (· < ·) ∧
      (∀ before location name after, locations = before ++ (location ++ [name]) :: after →
        location ≠ [] → ∃ above between, before = above ++ location :: between ∧
          ∀ other ∈ between, location <+: other) ∧
      PreOrder files.list maxLevel root trails ∧
      List.Forall₂ (Trail.Shows place.node root) locations trails ∧
      (render files.list maxLevel root .unlimited).sink.held = Trail.lines trails ∧
      (render files.list maxLevel root .unlimited).result =
        .ok ⟨locations.countP fun location =>
            (place.node.descend? location).any Node.isDirectory,
          locations.countP fun location =>
            (place.node.descend? location).any fun below => !below.isDirectory⟩ := by
  have hplace := fun {P : Node → Prop} (hP : files.root.Throughout P) =>
    (FileSystem.all_of_resolve (Node.throughout_passesDown P) hP hroot).node
  have hreaches : files.Reaches root place.node maxLevel :=
    ⟨⟨place, hroot, rfl⟩, hdir, hplace hnames, hplace hlinks, hopen⟩
  have hshows := hreaches.forall₂_shows
  have hstop := hreaches.stop?_eq_none
  refine ⟨place.node.locations maxLevel, _, fun _ => Node.mem_locations,
    Node.locations_ordered (hplace hnames), ?_, Lister.preOrder_trails files.list maxLevel root,
    hshows, ?_, ?_⟩
  · intro before location name after hsplit hne
    exact Node.locations_parent (hplace hnames) hsplit hne
  · rw [held_eq_lines_drawn, Lister.drawn_eq_trails hstop]
  · rw [result_eq_ok hstop]
    have hdirectories := countP_eq_of_forall₂ hshows fun _ _ h => h.any_kind id
    have hothers := countP_eq_of_forall₂ hshows fun _ _ h => h.any_kind not
    exact congrArg Except.ok (congrArg₂ Stats.mk hdirectories.symm hothers.symm)

/-- A pipe, and the current directory, which holds a file and a directory. -/
def shelfTree : FileSystem :=
  ⟨.directory .granted
    [([0x73], .directory .granted
        [([0x63], .file), ([0x62], .directory .granted [([0x64], .file)])]),
      ([0x6D], .pipe)], [[0x73]], rfl⟩

/-- The root's absolute path, as that of the directory above one of its own. -/
def shelfPath : Path :=
  [0x2F, 0x73, 0x2F, 0x2E, 0x2E, 0x2F]

theorem render_agrees_with_tree_shelf :
    shelfTree.resolve shelfPath = .ok ⟨shelfTree.root, []⟩ ∧
      (∃ locations trails,
        (∀ location, location ∈ locations ↔ 1 ≤ location.length ∧ location.length ≤ 2 ∧
          ∃ below, shelfTree.root.descend? location = some below) ∧
        locations.Pairwise (· < ·) ∧
        List.Forall₂ (Trail.Shows shelfTree.root shelfPath) locations trails ∧
        (render shelfTree.list 2 shelfPath .unlimited).sink.held =
          Trail.lines trails) ∧
      (render shelfTree.list 2 shelfPath .unlimited).result = .ok ⟨2, 2⟩ := by
  have hroot : shelfTree.resolve shelfPath = .ok ⟨shelfTree.root, []⟩ := by cbv
  have hnames : shelfTree.root.Throughout Node.WellNamed := by
    simp only [shelfTree, Node.throughout_directory, Node.throughout_file, Node.throughout_pipe,
      List.forall_mem_cons, List.not_mem_nil, false_imp_iff, implies_true, and_true]
    decide
  have hlinks : shelfTree.root.Throughout Node.NotLink := by
    simp [shelfTree, Node.NotLink]
  have hgranted : shelfTree.root.Throughout Node.IsGranted := by
    simp [shelfTree, Node.IsGranted, Permissions.granted]
  have hopen : shelfTree.root.IsOpen shelfPath 2 :=
    Node.isOpen_of_granted hgranted hnames (by decide)
  obtain ⟨locations, trails, hmem, horder, -, -, hshows, hheld, -⟩ :=
    render_agrees_with_tree hroot rfl hnames hlinks hopen
  exact ⟨hroot, ⟨locations, trails, hmem, horder, hshows, hheld⟩, by cbv⟩

end TreeSketch
