import Mathlib
import TreeSketch.Proofs.StoredTree

/-! # How links are cut

    A cycle of links can be gone round only as long as paths resolve, and
    one resolution follows no more than `Path.linkLimit` links, those of the
    root's path, of every directory on the way and of links' targets
    together.  The walk never counts them.  The route:

    * a path that resolves leaves some links for what is below
      (`FileSystem.Leaves`);
    * one entry further down either goes into a stored directory and leaves
      as many, one step further from the top, or is itself a link and leaves
      fewer (`FileSystem.Leaves.child_cases`);
    * so along a trail every link is paid for by the links left, and all
      other entries by the distance from the top, which a link can set back
      by no more than the height of the stored tree (`Trail.exists_leaves`).

    An entry whose path needs more links is a file, and no file is ever in
    the way of a drawing.  `render_links` is the result. -/

namespace TreeSketch

/-! ## Where places are -/

/-- That a place is in a file system: its top, or a child of a place in
    it. -/
inductive Place.IsIn (files : FileSystem) : Place → Prop where
  | top : IsIn files (Place.top files)
  | enter {here : Place} {name : Name} {node : Node} (hhere : IsIn files here)
      (hchild : here.node.child? name = some node) : IsIn files (here.enter name node)

namespace Place.IsIn

variable {files : FileSystem} {here : Place}

theorem parent (h : here.IsIn files) : here.parent.IsIn files := by
  cases h with
  | top => exact .top
  | enter hhere _ => exact hhere

/-- The names above a place lead to it. -/
theorem descend?_location (h : here.IsIn files) :
    files.root.descend? here.location = some here.node := by
  induction h with
  | top => rfl
  | @enter here name node _ hchild ih =>
      rw [Place.location_enter, Node.descend?_append, ih]
      exact Node.descend?_cons_eq_some_iff.mpr ⟨node, hchild, rfl⟩

end Place.IsIn

theorem FileSystem.isIn_of_resolve {files : FileSystem} {path : Path} {place : Place}
    (h : files.resolve path = .ok place) : place.IsIn files :=
  resolve_invariant .top (fun _ hhere => hhere.parent)
    (fun _ _ _ hhere hchild => hhere.enter hchild) h

/-- That no directory lies deeper below a node than some number of names. -/
def Node.HasHeight (node : Node) (height : Nat) : Prop :=
  ∀ location below, node.descend? location = some below → below.isDirectory = true →
    location.length ≤ height

/-- A directory is higher than each directory in it. -/
theorem Node.hasHeight_directory {permissions : Permissions} {children : List (Name × Node)}
    {height : Nat} (h : ∀ child ∈ children, child.2.isDirectory = true →
      ∃ less, height = less + 1 ∧ child.2.HasHeight less) :
    (directory permissions children).HasHeight height := by
  intro location below hbelow hdir
  cases location with
  | nil => exact Nat.zero_le height
  | cons name rest =>
      obtain ⟨child, hchild, hrest⟩ := Node.descend?_cons_eq_some_iff.mp hbelow
      obtain ⟨less, rfl, hless⟩ :=
        h _ (Node.mem_children_of_child? hchild) (isDirectory_of_descend? hrest hdir)
      exact Nat.succ_le_succ (hless rest below hrest hdir)

/-- So no path leads to a directory that lies deeper. -/
theorem FileSystem.length_above_le {files : FileSystem} {height : Nat}
    (hheight : files.root.HasHeight height) {path : Path} {place : Place}
    (h : files.resolve path = .ok place) (hdir : place.node.isDirectory = true) :
    place.above.length ≤ height := by
  have hlocation := hheight place.location place.node (isIn_of_resolve h).descend?_location hdir
  rwa [Place.location, List.length_reverse, List.length_map] at hlocation

/-! ## One entry further down -/

/-- What is asked below a child is asked with the child's name after what is
    asked of its directory. -/
theorem Path.pieces_child_child {name : Name} (hname : name.IsOrdinary) (dir : Path) (more : Name) :
    ((dir.child name).child more).pieces = (dir.child name).pieces ++ pieces more := by
  rw [child, if_neg (getLast?_child_ne hname dir)]
  exact List.splitOn_append_cons_self _ _

/-- **ONE ENTRY FURTHER DOWN**: a stored name leads to a child and leaves as
    many links, or is a link's and leaves fewer. -/
theorem FileSystem.Leaves.child_cases {files : FileSystem} {dir : Path} {here : Place} {left : Nat}
    (h : files.Leaves dir here left) {name : Name} (hname : name.IsStored) {there : Place}
    (hthere : files.resolve (dir.child name) = .ok there) :
    (∃ node, here.node.child? name = some node ∧ node.NotLink ∧ there = here.enter name node ∧
        files.Leaves (dir.child name) there left) ∨
      ∃ target, here.node.child? name = some (.link target) ∧
        ∃ left' < left, files.Leaves (dir.child name) there left' := by
  obtain ⟨before, hpieces, hmore⟩ := h.goesOn
  have hname' := Path.pieces_of_isOrdinary hname.toIsOrdinary
  have hhere : (Place.top files).resolve left here [name] = .ok there := by
    rw [← (resolve_eq_ok_iff.mp hthere).2, h.resolve_pieces_child, hname']
  -- the child's own path, and whatever is asked below it, are asked from `here`
  have hbelow : ∀ more, ((dir.child name).child more).pieces =
      (before ++ [name]) ++ Path.pieces more := by
    intro more
    rw [Path.pieces_child_child hname.toIsOrdinary, hpieces, hname']
  have horigin := files.origin_child (resolve_eq_ok_iff.mp h.resolved).1.ne_nil name
  have hasked : ∀ more, (Place.top files).resolve Path.linkLimit (files.origin (dir.child name))
      ((before ++ [name]) ++ more) = (Place.top files).resolve left here (name :: more) := by
    intro more
    rw [horigin, List.append_assoc, hmore, List.singleton_append]
  cases hstep : here.step name with
  | error e =>
      rw [Place.resolve_cons_of_error hstep] at hhere
      cases hhere
  | ok step =>
      rcases Place.step_stored hname hstep with ⟨target, hchild, rfl⟩ | ⟨node, hchild, hlink, rfl⟩
      · obtain ⟨left', hless, hleft'⟩ := Place.exists_left_of_follow hstep hhere
        exact Or.inr ⟨target, hchild, left', hless, hthere, before ++ [name], hbelow,
          fun more => (hasked more).trans (hleft' more)⟩
      · rw [Place.resolve_cons_of_arrive hstep, Place.resolve_nil] at hhere
        obtain rfl := Except.ok.inj hhere
        exact Or.inl ⟨node, hchild, hlink, rfl, hthere, before ++ [name], hbelow,
          fun more => (hasked more).trans (Place.resolve_cons_of_arrive hstep left more)⟩

/-! ## Along a trail -/

/-- The name that an entry is stored under. -/
def Entry.storedName (entry : Entry) : Name :=
  (Path.pieces entry.path).getLast?.getD []

theorem FileSystem.storedName_entryAt {name : Name} (hname : name.IsOrdinary) (files : FileSystem)
    (dir : Path) : (files.entryAt dir name).storedName = name := by
  obtain ⟨before, hpieces, -⟩ := Path.pieces_child dir
  show (Path.pieces (dir.child name)).getLast?.getD [] = name
  rw [hpieces, Path.pieces_of_isOrdinary hname, List.getLast?_concat, Option.getD_some]

/-- Whether an entry of the directory at `dir` is stored as a link, wherever
    that leads. -/
def FileSystem.isLinkIn (files : FileSystem) (dir : Path) (entry : Entry) : Bool :=
  match files.resolve dir with
  | .error _ => false
  | .ok here =>
    match here.node.child? entry.storedName with
    | some (.link _) => true
    | _ => false

/-- How many entries on a trail from `dir` are stored as links. -/
def Trail.links (files : FileSystem) : Path → Trail → Nat
  | _, [] => 0
  | dir, spot :: rest => (files.isLinkIn dir spot.entry).toNat + links files spot.entry.path rest

section Trail

variable {files : FileSystem} {dir : Path} {here : Place} {name : Name}

theorem FileSystem.isLinkIn_of_link {target : Path} (h : files.resolve dir = .ok here)
    (hname : name.IsOrdinary) (hchild : here.node.child? name = some (.link target)) :
    files.isLinkIn dir (files.entryAt dir name) = true := by
  simp only [isLinkIn, h, storedName_entryAt hname, hchild]

theorem FileSystem.isLinkIn_of_notLink {node : Node} (h : files.resolve dir = .ok here)
    (hname : name.IsOrdinary) (hchild : here.node.child? name = some node) (hlink : node.NotLink) :
    files.isLinkIn dir (files.entryAt dir name) = false := by
  simp only [isLinkIn, h, storedName_entryAt hname, hchild]
  cases node with
  | directory permissions children => rfl
  | file => rfl
  | pipe => rfl
  | link target => exact absurd rfl (hlink target)

/-- **LINKS ARE PAID FOR**: along a trail to a directory the links on it fall
    due, and what else it is long is gone down from the top, where a link
    may have set it back by the height of the tree. -/
theorem Trail.exists_leaves (hnames : files.root.Named Name.IsStored) {trail : Trail}
    (h : Descends files.list dir trail) (hdir : isDirectory trail = true) :
    ∀ {here : Place} {left : Nat}, files.Leaves dir here left → here.node.isDirectory = true →
      ∃ there left', files.Leaves (target dir trail) there left' ∧
        there.node.isDirectory = true ∧ left' + links files dir trail ≤ left ∧
        ∀ height, files.root.HasHeight height → trail.length + here.above.length ≤
          links files dir trail + links files dir trail * height + there.above.length := by
  induction h with
  | stay dir =>
      intro here left hleaves hhere
      refine ⟨here, left, hleaves, hhere, Nat.le_refl left, fun height _ => ?_⟩
      rw [links, List.length_nil]
      omega
  | @enter dir spot rest hlists hspot hrest ih =>
      intro here left hleaves hhere
      have hspotdir : spot.entry.isDirectory = true := by
        by_cases hnil : rest = []
        · subst hnil
          exact hdir
        · exact hspot hnil
      rw [isDirectory_cons_of_directory hspotdir] at hdir
      obtain ⟨names, hread, name, hmem, heq⟩ := Spot.exists_name hlists
      have hname : name.IsStored := FileSystem.readNames_named hnames hread name hmem
      rw [heq] at hspotdir
      obtain ⟨middle, hmiddle, hmiddledir⟩ := FileSystem.resolve_of_isDirectory hspotdir
      rw [target_cons, links, heq]
      rw [heq] at ih
      rcases hleaves.child_cases hname hmiddle with
        ⟨node, hchild, hlink, rfl, hleaves'⟩ | ⟨target, hchild, left', hless, hleaves'⟩
      · -- a child of the directory, one further down
        obtain ⟨there, last, hthere, htheredir, hlast, hlength⟩ := ih hdir hleaves' hmiddledir
        rw [files.isLinkIn_of_notLink hleaves.resolved hname.toIsOrdinary hchild hlink,
          Bool.toNat_false, Nat.zero_add]
        refine ⟨there, last, hthere, htheredir, hlast, fun height hheight => ?_⟩
        have hrest := hlength height hheight
        have habove : (here.enter name node).above.length = here.above.length + 1 := rfl
        rw [List.length_cons]
        omega
      · -- a link, which leads to any depth, but `here` was no deeper than the tree
        obtain ⟨there, last, hthere, htheredir, hlast, hlength⟩ := ih hdir hleaves' hmiddledir
        rw [files.isLinkIn_of_link hleaves.resolved hname.toIsOrdinary hchild, Bool.toNat_true]
        refine ⟨there, last, hthere, htheredir, by omega, fun height hheight => ?_⟩
        have hrest := hlength height hheight
        have hdeep := files.length_above_le hheight hleaves.resolved hhere
        rw [List.length_cons, Nat.add_mul, Nat.one_mul]
        omega

end Trail

/-! ## Whole drawings -/

/-- What a trail goes down from can be read, if it goes down at all. -/
theorem Trail.exists_readNames {files : FileSystem} {root : Path} {trail : Trail} (hne : trail ≠ [])
    (h : Descends files.list root trail) : ∃ names, files.readNames root = .ok names := by
  cases h with
  | stay dir => exact absurd rfl hne
  | enter hlists _ _ =>
      obtain ⟨names, hread, -⟩ := Spot.exists_name hlists
      exact ⟨names, hread⟩

/-- A directory that is drawn has no more links on the way to it than one
    resolution may follow, and is no deeper than they allow. -/
theorem Trail.links_le {files : FileSystem} (hnames : files.root.Named Name.IsStored) {root : Path}
    {trail : Trail} (hne : trail ≠ []) (h : Descends files.list root trail)
    (hdir : isDirectory trail = true) :
    links files root trail ≤ Path.linkLimit ∧ ∀ height, files.root.HasHeight height →
      trail.length ≤ Path.linkLimit + (Path.linkLimit + 1) * height := by
  obtain ⟨names, hread⟩ := exists_readNames hne h
  obtain ⟨here, permissions, children, hresolve, hnode, -⟩ := FileSystem.readNames_eq_ok hread
  have hhere : here.node.isDirectory = true := by rw [hnode]; rfl
  obtain ⟨left, hle, hleaves⟩ := files.exists_leaves hresolve
  obtain ⟨there, left', hthere, htheredir, hlast, hlength⟩ :=
    exists_leaves hnames h hdir hleaves hhere
  have hlinks : links files root trail ≤ Path.linkLimit := by omega
  refine ⟨hlinks, fun height hheight => ?_⟩
  have hlong := hlength height hheight
  have hdeep := files.length_above_le hheight hthere.resolved htheredir
  have hback := Nat.mul_le_mul_right height hlinks
  rw [Nat.add_mul, Nat.one_mul]
  omega

/-- A trail goes on only from a directory. -/
theorem Trail.isDirectory_of_append {list : Lister} {dir : Path} {above below : Trail}
    (h : Descends list dir (above ++ below)) (hne : below ≠ []) : isDirectory above = true := by
  induction below using List.reverseRecOn with
  | nil => exact absurd rfl hne
  | append_singleton before last ih =>
      rw [← List.append_assoc] at h
      obtain ⟨hbefore, hdir, -⟩ := descends_concat.mp h
      by_cases hnil : before = []
      · rwa [hnil, List.append_nil] at hdir
      · exact ih hbefore hnil

/-- An entry whose path does not resolve is a file. -/
theorem Trail.not_isDirectory_of_error {files : FileSystem} {root : Path} {trail : Trail}
    {spot : Spot} (h : Descends files.list root (trail ++ [spot])) {cause : Cause}
    (hcause : files.resolve spot.entry.path = .error cause) :
    isDirectory (trail ++ [spot]) = false := by
  obtain ⟨-, -, hlists⟩ := descends_concat.mp h
  obtain ⟨names, -, name, -, heq⟩ := Spot.exists_name hlists
  rw [isDirectory_concat]
  rw [heq] at hcause ⊢
  by_contra hdir
  obtain ⟨place, hplace, -⟩ := FileSystem.resolve_of_isDirectory (eq_true_of_ne_false hdir)
  cases hplace.symm.trans hcause

namespace Lister

variable {files : FileSystem} {maxLevel : Nat} {root : Path}

theorem descends_of_mem_drawn {trail : Trail} (h : trail ∈ drawn files.list maxLevel root) :
    trail ≠ [] ∧ trail.Descends files.list root := by
  have hmem := drawn_prefix_trails.subset h
  exact ⟨ne_nil_of_mem_trails hmem, (mem_trails.mp hmem).2.2⟩

/-- What stops a drawing of which something is drawn is a directory with a
    path that resolves. -/
theorem resolve_of_stop? {trail drawnTrail : Trail} {e : Error}
    (h : stop? files.list maxLevel root = some (trail, e))
    (hdrawn : drawnTrail ∈ drawn files.list maxLevel root) :
    ∃ place, files.resolve (trail.target root) = .ok place := by
  by_cases hne : trail = []
  · obtain ⟨cause, -, hcause⟩ := FileSystem.access_of_stop? h
    obtain ⟨hdrawnne, hdescends⟩ := descends_of_mem_drawn hdrawn
    obtain ⟨names, hread⟩ := Trail.exists_readNames hdrawnne hdescends
    rw [hne] at hcause
    cases hread.symm.trans hcause
  · obtain ⟨-, place, permissions, children, hresolve, -⟩ := unreadable_of_stop? h hne
    exact ⟨place, hresolve⟩

end Lister

/-- A drawing succeeds exactly if all that it goes into can be read: files
    are in no drawing's way. -/
theorem result_isOk_iff_readNames {files : FileSystem} {maxLevel : Nat} {root : Path} :
    (∃ stats, (render files.list maxLevel root .unlimited).result = .ok stats) ↔
      ∀ trail : Trail, trail ∈ [] :: Lister.drawn files.list maxLevel root →
        trail.isTried maxLevel = true → ∃ names, files.readNames (trail.target root) = .ok names := by
  rw [result_isOk_iff]
  constructor
  · intro hstop trail htrail htried
    rw [Lister.drawn_eq_trails hstop] at htrail
    exact Trail.readable_of_obstacle htried (Lister.stop?_eq_none.mp hstop trail htrail)
  · intro hread
    by_contra hstop
    obtain ⟨⟨trail, e⟩, hsome⟩ := Option.ne_none_iff_exists'.mp hstop
    obtain ⟨hobstacle, before, after, hsplit, hbefore⟩ := Lister.stop?_eq_some.mp hsome
    have htrail : trail ∈ [] :: Lister.drawn files.list maxLevel root := by
      rw [Lister.nil_cons_drawn_of_blocked hsplit hbefore hobstacle]
      exact List.mem_append_right _ List.mem_cons_self
    obtain ⟨names, hnames⟩ := hread trail htrail (Trail.isTried_of_obstacle hobstacle)
    obtain ⟨cause, -, hcause⟩ := FileSystem.access_of_stop? hsome
    cases hnames.symm.trans hcause

/-- That the last entry of a trail that is drawn is one of a file: its line
    ends in the name without a slash, nothing is drawn below it, it counts
    as a file, and no failure is about it. -/
structure Trail.IsFileOf (files : FileSystem) (maxLevel : Nat) (root : Path) (above : Trail)
    (spot : Spot) : Prop where
  line : line (above ++ [spot]) = indent above ++ spot.mark ++ spot.entry.name ++ "\n"
  below : ∀ trail ∈ Lister.drawn files.list maxLevel root, above ++ [spot] <+: trail →
    trail = above ++ [spot]
  file : isDirectory (above ++ [spot]) = false
  counted : ∀ stats, (render files.list maxLevel root .unlimited).result = .ok stats →
    stats.files = (Lister.drawn files.list maxLevel root).countP fun trail => !trail.isDirectory
  harmless : ∀ cause, (render files.list maxLevel root .unlimited).result ≠
    .error (.access spot.entry.path cause)

/-- An entry whose path does not resolve is drawn as a file. -/
theorem Trail.isFileOf_of_error {files : FileSystem} {maxLevel : Nat} {root : Path} {above : Trail}
    {spot : Spot} (h : above ++ [spot] ∈ Lister.drawn files.list maxLevel root) {cause : Cause}
    (hcause : files.resolve spot.entry.path = .error cause) :
    IsFileOf files maxLevel root above spot := by
  obtain ⟨-, hdescends⟩ := Lister.descends_of_mem_drawn h
  have hfile := not_isDirectory_of_error hdescends hcause
  refine ⟨?_, ?_, hfile, ?_, ?_⟩
  · rw [isDirectory_concat] at hfile
    rw [line_concat, Entry.displayName_eq, hfile]
    rfl
  · rintro trail htrail ⟨below, rfl⟩
    obtain ⟨-, htrail⟩ := Lister.descends_of_mem_drawn htrail
    by_contra hne
    have hbelow : below ≠ [] := fun hnil => hne (by rw [hnil, List.append_nil])
    rw [isDirectory_of_append htrail hbelow] at hfile
    cases hfile
  · intro stats hstats
    have hstop := result_isOk_iff.mp ⟨stats, hstats⟩
    rw [result_eq_ok hstop] at hstats
    rw [Lister.drawn_eq_trails hstop, ← Except.ok.inj hstats]
  · intro cause' hresult
    obtain ⟨trail, hstop⟩ := result_eq_error_iff.mp hresult
    obtain ⟨_, he, -⟩ := FileSystem.access_of_stop? hstop
    obtain ⟨hpath, -⟩ := Error.access.inj he
    obtain ⟨place, hplace⟩ := Lister.resolve_of_stop? hstop h
    rw [← hpath, hcause] at hplace
    cases hplace

/-- **LINKS ARE CUT**: of the entries on the way to a directory that is drawn
    no more than forty are links, so with no stored directory deeper than
    `height` none is drawn deeper than `40 + 41 * height`, whatever the last
    level.  An entry whose path takes more links is drawn as a file, and a
    drawing fails only by a directory that cannot be read. -/
theorem render_links {files : FileSystem} (hnames : files.root.Named Name.IsStored) (maxLevel : Nat)
    (root : Path) :
    (render files.list maxLevel root .unlimited).sink.held =
        Trail.lines (Lister.drawn files.list maxLevel root) ∧
      (∀ trail ∈ Lister.drawn files.list maxLevel root, trail.isDirectory = true →
        trail.links files root ≤ 40 ∧
          ∀ height, files.root.HasHeight height → trail.length ≤ 40 + 41 * height) ∧
      (∀ above spot, above ++ [spot] ∈ Lister.drawn files.list maxLevel root →
        files.resolve spot.entry.path = .error (.system .linkLoop) →
        Trail.IsFileOf files maxLevel root above spot) ∧
      ((∃ stats, (render files.list maxLevel root .unlimited).result = .ok stats) ↔
        ∀ trail : Trail, trail ∈ [] :: Lister.drawn files.list maxLevel root →
          trail.isTried maxLevel = true → ∃ names, files.readNames (trail.target root) = .ok names) := by
  refine ⟨held_eq_lines_drawn, ?_, ?_, result_isOk_iff_readNames⟩
  · intro trail htrail hdir
    obtain ⟨hne, hdescends⟩ := Lister.descends_of_mem_drawn htrail
    exact Trail.links_le hnames hne hdescends hdir
  · intro above spot hspot hloop
    exact Trail.isFileOf_of_error hspot hloop

/-- The current directory holds an absolute link to itself, which can be gone
    round, and one that leads nowhere but to itself. -/
def roundTree : FileSystem :=
  ⟨.directory .granted
    [([0x64], .directory .granted
      [([0x61], .link [0x2F, 0x64]), ([0x6C], .link [0x2F, 0x64, 0x2F, 0x6C])])], [[0x64]], rfl⟩

theorem render_links_round :
    roundTree.root.Named Name.IsStored ∧ roundTree.root.HasHeight 1 ∧
      (render roundTree.list 2 [0x2E] .unlimited).result = .ok ⟨2, 2⟩ ∧
      (∀ trail ∈ Lister.drawn roundTree.list 2 [0x2E], trail.isDirectory = true →
        trail.links roundTree [0x2E] ≤ 40 ∧ trail.length ≤ 40 + 41 * 1) ∧
      ∃ spot, [spot] ∈ Lister.drawn roundTree.list 2 [0x2E] ∧
        spot.entry.path = Text.encode "./l" ∧
        roundTree.resolve spot.entry.path = .error (.system .linkLoop) ∧
        Trail.IsFileOf roundTree 2 [0x2E] [] spot := by
  have hnames : roundTree.root.Named Name.IsStored := by
    rw [Node.named_iff_throughout]
    simp only [roundTree, Node.throughout_directory, Node.throughout_link, Node.children,
      List.forall_mem_cons, List.not_mem_nil, false_imp_iff, implies_true, and_true]
    decide
  have hheight : roundTree.root.HasHeight 1 := by
    refine Node.hasHeight_directory (List.forall_mem_singleton.mpr fun _ => ⟨0, rfl, ?_⟩)
    exact Node.hasHeight_directory (by simp [Node.isDirectory])
  have hpaths : (Lister.drawn roundTree.list 2 [0x2E]).map
      (fun trail => trail.map fun spot => spot.entry.path) =
      [["./a"], ["./a", "./a/a"], ["./a", "./a/l"], ["./l"]].map
        fun paths => paths.map Text.encode := by cbv
  have hloop : roundTree.resolve (Text.encode "./l") = .error (.system .linkLoop) := by cbv
  obtain ⟨-, hdirs, hfiles, -⟩ := render_links hnames 2 [0x2E]
  refine ⟨hnames, hheight, by cbv, fun trail htrail hdir => ?_, ?_⟩
  · exact ⟨(hdirs trail htrail hdir).1, (hdirs trail htrail hdir).2 1 hheight⟩
  · have hmem : [Text.encode "./l"] ∈ (Lister.drawn roundTree.list 2 [0x2E]).map
        (fun trail => trail.map fun spot => spot.entry.path) := by
      rw [hpaths]
      decide
    obtain ⟨trail, htrail, hpath⟩ := List.mem_map.mp hmem
    obtain ⟨spot, rfl, hspot⟩ := List.map_eq_singleton_iff.mp hpath
    exact ⟨spot, htrail, hspot, hspot ▸ hloop, hfiles [] spot htrail (hspot ▸ hloop)⟩

end TreeSketch
