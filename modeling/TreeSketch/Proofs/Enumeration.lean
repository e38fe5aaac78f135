import TreeSketch.Proofs.Lists
import TreeSketch.Proofs.Locations
import TreeSketch.Walk

/-! # The order in which directories are enumerated

    The system may give a directory's names in any order.  Two file
    systems that differ in nothing else are *reordered*
    (`Node.Reordered`).  One lookup leads to reordered places on both
    (`Place.Reordered.step`), so a whole resolution does, and what is asked
    of the place at its end is the same on both: whether it is a
    directory, whether it may be read, and its names up to their order,
    which sorting settles (`Name.sort_eq_of_perm`).

    So the two list alike (`FileSystem.list_eq_of_reordered`), and a
    drawing, which knows nothing of a file system but its lister, is the
    same in every respect: `render_enumeration`. -/

namespace TreeSketch

/-- Sorting forgets the order that names were given in. -/
theorem Name.sort_eq_of_perm {names names' : List Name} (h : names.Perm names') :
    Name.sort names = Name.sort names' := by
  have hperm : (Name.sort names).Perm (Name.sort names') :=
    (Name.sort_perm names).trans (h.trans (Name.sort_perm names').symm)
  refine hperm.eq_of_pairwise ?_ (Name.sort_ordered names) (Name.sort_ordered names')
  intro a b _ _ hab hba
  exact List.le_antisymm hab hba

/-! ## Reordered nodes -/

mutual

/-- That two nodes store the same, but for the order in which their
    directories enumerate what is in them. -/
inductive Node.Reordered : Node → Node → Prop where
  | directory {permissions : Permissions} {children permuted children' : List (Name × Node)}
      (hperm : children.Perm permuted) (hnodes : Node.ReorderedEach permuted children') :
      Node.Reordered (.directory permissions children) (.directory permissions children')
  | file : Node.Reordered .file .file
  | pipe : Node.Reordered .pipe .pipe
  | link (target : Path) : Node.Reordered (.link target) (.link target)

/-- That two lists have the same names in the same order, and reordered
    nodes with them. -/
inductive Node.ReorderedEach : List (Name × Node) → List (Name × Node) → Prop where
  | nil : Node.ReorderedEach [] []
  | cons {name : Name} {node node' : Node} {rest rest' : List (Name × Node)}
      (hnode : Node.Reordered node node') (hrest : Node.ReorderedEach rest rest') :
      Node.ReorderedEach ((name, node) :: rest) ((name, node') :: rest')

end

/-- That two computations fail with the same error, or come to values in a
    relation. -/
inductive SameOutcome {ε α β : Type} (R : α → β → Prop) : Except ε α → Except ε β → Prop where
  | error (e : ε) : SameOutcome R (.error e) (.error e)
  | ok {a : α} {b : β} (h : R a b) : SameOutcome R (.ok a) (.ok b)

/-- A choice that both make alike keeps their outcomes the same. -/
theorem SameOutcome.ite {ε α β : Type} {R : α → β → Prop} {c : Prop} [Decidable c]
    {a b : Except ε α} {a' b' : Except ε β} (hthen : c → SameOutcome R a a')
    (helse : ¬ c → SameOutcome R b b') :
    SameOutcome R (if c then a else b) (if c then a' else b') := by
  by_cases h : c
  · rw [if_pos h, if_pos h]
    exact hthen h
  · rw [if_neg h, if_neg h]
    exact helse h

/-- That the names in a directory are distinct. -/
def Node.DistinctNames (node : Node) : Prop :=
  (node.children.map Prod.fst).Nodup

namespace Node

theorem ReorderedEach.names_eq {children children' : List (Name × Node)} :
    ReorderedEach children children' → children.map Prod.fst = children'.map Prod.fst := by
  induction children generalizing children' with
  | nil => intro h; cases h; rfl
  | cons child rest ih =>
      intro h
      cases h with
      | cons _ hrest => rw [List.map_cons, List.map_cons, ih hrest]

/-- A name is found in both lists or in neither. -/
theorem ReorderedEach.lookup {children children' : List (Name × Node)} (name : Name) :
    ReorderedEach children children' →
      (children.lookup name = none ∧ children'.lookup name = none) ∨
        ∃ node node', children.lookup name = some node ∧ children'.lookup name = some node' ∧
          node.Reordered node' := by
  induction children generalizing children' with
  | nil => intro h; cases h; exact Or.inl ⟨rfl, rfl⟩
  | cons child rest ih =>
      intro h
      cases h with
      | @cons first node node' _ rest' hnode hrest =>
          rw [List.lookup_cons, List.lookup_cons]
          by_cases hname : (name == first) = true
          · rw [hname]
            exact Or.inr ⟨node, node', rfl, rfl, hnode⟩
          · rw [eq_false_of_ne_true hname]
            exact ih hrest

/-- Of distinct names each finds reordered children, or none, in both. -/
theorem Reordered.child? {node node' : Node} (h : node.Reordered node')
    (hdistinct : node.DistinctNames) (name : Name) :
    (node.child? name = none ∧ node'.child? name = none) ∨
      ∃ child child', node.child? name = some child ∧ node'.child? name = some child' ∧
        child.Reordered child' := by
  cases h with
  | directory hperm hnodes =>
      rw [child?_eq, child?_eq, children, children, lookup_eq_of_perm hperm hdistinct]
      exact hnodes.lookup name
  | file => exact Or.inl ⟨rfl, rfl⟩
  | pipe => exact Or.inl ⟨rfl, rfl⟩
  | link target => exact Or.inl ⟨rfl, rfl⟩

theorem Reordered.isDirectory_eq {node node' : Node} (h : node.Reordered node') :
    node.isDirectory = node'.isDirectory := by
  cases h with
  | directory _ _ => rfl
  | file => rfl
  | pipe => rfl
  | link target => rfl

end Node

/-! ## Resolution -/

/-- That two places are reordered, and were come to by the same names. -/
structure Place.Reordered (here there : Place) : Prop where
  node : here.node.Reordered there.node
  above : Node.ReorderedEach here.above there.above

/-- That two lookups lead to places in a relation, or to the same link. -/
inductive Step.Related (R : Place → Place → Prop) : Step → Step → Prop where
  | arrive {next next' : Place} (h : R next next') : Step.Related R (.arrive next) (.arrive next')
  | follow (target : Path) : Step.Related R (.follow target) (.follow target)

namespace Place

variable {R : Place → Place → Prop}

/-- What one lookup keeps of two places, the way along pieces keeps, if
    links do. -/
theorem walk_sameOutcome
    (hstep : ∀ here there piece, R here there →
      SameOutcome (Step.Related R) (here.step piece) (there.step piece))
    {follow follow' : Place → Path → List Name → Except SystemError Place}
    (hfollow : ∀ here there target rest, R here there →
      SameOutcome R (follow here target rest) (follow' there target rest))
    {pieces : List Name} :
    ∀ {here there : Place}, R here there →
      SameOutcome R (walk follow here pieces) (walk follow' there pieces) := by
  induction pieces with
  | nil => intro here there h; exact .ok h
  | cons piece rest ih =>
      intro here there h
      have hpiece := hstep here there piece h
      rw [walk, walk]
      generalize here.step piece = outcome, there.step piece = outcome' at hpiece
      cases hpiece with
      | error e => exact .error e
      | ok hsteps =>
          cases hsteps with
          | arrive hnext => exact ih hnext
          | follow target => exact hfollow here there target rest h

/-- A path starts at the tops of both or at the places themselves. -/
theorem origin_related {top top' here there : Place} (htop : R top top') (h : R here there)
    (path : Path) : R (top.origin here path) (top'.origin there path) := by
  rw [origin, origin]
  by_cases habsolute : path.isAbsolute = true
  · rw [if_pos habsolute, if_pos habsolute]
    exact htop
  · rw [if_neg habsolute, if_neg habsolute]
    exact h

/-- What the tops have and one lookup keeps of two places, a resolution
    keeps. -/
theorem resolve_sameOutcome {top top' : Place} (htop : R top top')
    (hstep : ∀ here there piece, R here there →
      SameOutcome (Step.Related R) (here.step piece) (there.step piece)) (links : Nat) :
    ∀ {pieces : List Name} {here there : Place}, R here there →
      SameOutcome R (top.resolve links here pieces) (top'.resolve links there pieces) := by
  -- on the links that may still be followed; both follow the same ones
  induction links with
  | zero =>
      intro pieces here there h
      exact walk_sameOutcome hstep (fun _ _ _ _ _ => .error _) h
  | succ links ih =>
      intro pieces here there h
      refine walk_sameOutcome hstep ?_ h
      intro here there target rest h
      exact ih (origin_related htop h target)

/-- Reordered places have reordered places above them. -/
theorem Reordered.parent {here there : Place} (h : here.Reordered there) :
    here.parent.Reordered there.parent := by
  obtain ⟨node, above⟩ := here
  obtain ⟨node', above'⟩ := there
  obtain ⟨hnode, habove⟩ := h
  cases habove with
  | nil => exact ⟨hnode, .nil⟩
  | cons hup hrest => exact ⟨hup, hrest⟩

/-- **ONE LOOKUP** at reordered places leads to reordered places. -/
theorem Reordered.step {here there : Place} (h : here.Reordered there)
    (hdistinct : here.node.DistinctNames) (piece : Name) :
    SameOutcome (Step.Related Reordered) (here.step piece) (there.step piece) := by
  obtain ⟨node, above⟩ := here
  obtain ⟨node', above'⟩ := there
  obtain ⟨hnode, habove⟩ := h
  cases hnode with
  | file => exact .error _
  | pipe => exact .error _
  | link target => exact .error _
  | @directory permissions children permuted children' hperm hnodes =>
      have hhere : (Place.mk (.directory permissions children) above).Reordered
          ⟨.directory permissions children', above'⟩ := ⟨.directory hperm hnodes, habove⟩
      rw [Place.step, Place.step]
      refine .ite (fun _ => .ok (.arrive hhere)) fun _ => ?_
      refine .ite (fun _ => .error _) fun _ => ?_
      refine .ite (fun _ => .ok (.arrive hhere)) fun _ => ?_
      refine .ite (fun _ => .ok (.arrive hhere.parent)) fun _ => ?_
      refine .ite (fun _ => .error _) fun _ => ?_
      rw [lookup_eq_of_perm hperm hdistinct]
      rcases hnodes.lookup piece with ⟨hnone, hnone'⟩ | ⟨node, node', hsome, hsome', hnode⟩
      · rw [hnone, hnone']
        exact .error _
      · rw [hsome, hsome']
        cases hnode with
        | file => exact .ok (.arrive ⟨.file, .cons hhere.node habove⟩)
        | pipe => exact .ok (.arrive ⟨.pipe, .cons hhere.node habove⟩)
        | link target => exact .ok (.follow target)
        | directory hperm' hnodes' =>
            exact .ok (.arrive ⟨.directory hperm' hnodes', .cons hhere.node habove⟩)

/-- And to places with distinct names, where the names are distinct
    throughout. -/
theorem Reordered.step_distinct {here there : Place} (h : here.Reordered there)
    (hall : here.All (Node.Throughout Node.DistinctNames)) (piece : Name) :
    SameOutcome (Step.Related fun here there =>
      here.Reordered there ∧ here.All (Node.Throughout Node.DistinctNames))
      (here.step piece) (there.step piece) := by
  have hlookup := h.step hall.node.here piece
  have hnext : ∀ next, here.step piece = .ok (.arrive next) →
      next.All (Node.Throughout Node.DistinctNames) := fun _ =>
    hall.step (Node.throughout_passesDown Node.DistinctNames)
  generalize here.step piece = outcome, there.step piece = outcome' at hlookup hnext
  cases hlookup with
  | error e => exact .error e
  | ok hsteps =>
      cases hsteps with
      | arrive hplaces => exact .ok (.arrive ⟨hplaces, hnext _ rfl⟩)
      | follow target => exact .ok (.follow target)

/-- Names lead down to reordered places. -/
theorem Reordered.descend {location : Location} :
    ∀ {here there : Place}, here.Reordered there →
      here.All (Node.Throughout Node.DistinctNames) →
      (here.descend location).Reordered (there.descend location) ∧
        (here.descend location).All (Node.Throughout Node.DistinctNames) := by
  induction location with
  | nil => intro here there h hall; exact ⟨h, hall⟩
  | cons name rest ih =>
      intro here there h hall
      rw [Place.descend, Place.descend]
      rcases h.node.child? hall.node.here name with
        ⟨hnone, hnone'⟩ | ⟨child, child', hsome, hsome', hchild⟩
      · rw [hnone, hnone']
        exact ⟨h, hall⟩
      · rw [hsome, hsome']
        exact ih ⟨hchild, .cons h.node h.above⟩
          (hall.enter (Node.throughout_passesDown Node.DistinctNames) hsome)

end Place

/-- That two file systems store the same, but for the order in which their
    directories enumerate what is in them, and are used from the same
    directory. -/
structure FileSystem.Reordered (files files' : FileSystem) : Prop where
  root : files.root.Reordered files'.root
  current : files.current = files'.current

namespace FileSystem

variable {files files' : FileSystem}

/-- A path leads to reordered places, or fails alike. -/
theorem resolve_sameOutcome (h : files.Reordered files')
    (hdistinct : files.root.Throughout Node.DistinctNames) (path : Path) :
    SameOutcome Place.Reordered (files.resolve path) (files'.resolve path) := by
  let R : Place → Place → Prop := fun here there =>
    here.Reordered there ∧ here.All (Node.Throughout Node.DistinctNames)
  have hstep : ∀ here there piece, R here there →
      SameOutcome (Step.Related R) (here.step piece) (there.step piece) :=
    fun _ _ piece h => h.1.step_distinct h.2 piece
  have htop : R (Place.top files) (Place.top files') :=
    ⟨⟨h.root, .nil⟩, hdistinct, List.forall_mem_nil _⟩
  have hcurrent : R (Place.current files) (Place.current files') := by
    rw [Place.current, Place.current, ← h.current]
    exact htop.1.descend htop.2
  have hpieces : SameOutcome R
      ((Place.top files).resolve Path.linkLimit (files.origin path) path.pieces)
      ((Place.top files').resolve Path.linkLimit (files'.origin path) path.pieces) :=
    Place.resolve_sameOutcome htop hstep Path.linkLimit (Place.origin_related htop hcurrent path)
  rw [resolve, resolve]
  refine .ite (fun _ => .error _) fun _ => ?_
  refine .ite (fun _ => .error _) fun _ => ?_
  refine .ite (fun _ => .error _) fun _ => ?_
  generalize (Place.top files).resolve Path.linkLimit (files.origin path) path.pieces = outcome,
    (Place.top files').resolve Path.linkLimit (files'.origin path) path.pieces = outcome'
    at hpieces
  cases hpieces with
  | error e => exact .error _
  | ok hplaces => exact .ok hplaces.1

/-- So an entry is the same on both. -/
theorem entryAt_eq_of_reordered (h : files.Reordered files')
    (hdistinct : files.root.Throughout Node.DistinctNames) (dir : Path) (name : Name) :
    files.entryAt dir name = files'.entryAt dir name := by
  have hpath := resolve_sameOutcome h hdistinct (dir.child name)
  rw [entryAt, entryAt, kindAt, kindAt]
  generalize files.resolve (dir.child name) = outcome,
    files'.resolve (dir.child name) = outcome' at hpath
  cases hpath with
  | error e => rfl
  | ok hplaces => simp only [hplaces.node.isDirectory_eq]

/-- And so is what keeps it from being examined. -/
theorem failureAt_eq_of_reordered (h : files.Reordered files')
    (hdistinct : files.root.Throughout Node.DistinctNames) (path : Path) :
    files.failureAt path = files'.failureAt path := by
  have hpath := resolve_sameOutcome h hdistinct path
  rw [failureAt, failureAt]
  generalize files.resolve path = outcome, files'.resolve path = outcome' at hpath
  cases hpath with
  | error e => rfl
  | ok _ => rfl

/-- The names that are read are the same, but for their order. -/
theorem readNames_sameOutcome (h : files.Reordered files')
    (hdistinct : files.root.Throughout Node.DistinctNames) (path : Path) :
    SameOutcome List.Perm (files.readNames path) (files'.readNames path) := by
  have hpath := resolve_sameOutcome h hdistinct path
  rw [readNames, readNames]
  generalize files.resolve path = outcome, files'.resolve path = outcome' at hpath
  cases hpath with
  | error e => exact .error e
  | @ok place place' hplaces =>
      obtain ⟨node, above⟩ := place
      obtain ⟨node', above'⟩ := place'
      cases hplaces.node with
      | file => exact .error _
      | pipe => exact .error _
      | link target => exact .error _
      | directory hperm hnodes =>
          refine .ite (fun _ => .ok ?_) fun _ => .error _
          rw [← hnodes.names_eq]
          exact hperm.map Prod.fst

/-- **THE SAME LISTING**: sorted, a directory's names are the same list, and
    so are the entries made from them and what is told of them. -/
theorem list_eq_of_reordered (h : files.Reordered files')
    (hdistinct : files.root.Throughout Node.DistinctNames) (dir : Path) :
    files.list dir = files'.list dir := by
  have hentries : files.entryAt dir = files'.entryAt dir :=
    funext (entryAt_eq_of_reordered h hdistinct dir)
  have hfailures : files.failureAt = files'.failureAt :=
    funext (failureAt_eq_of_reordered h hdistinct)
  have hnames := readNames_sameOutcome h hdistinct dir
  rw [list, list, hentries, hfailures]
  generalize files.readNames dir = outcome, files'.readNames dir = outcome' at hnames
  cases hnames with
  | error e => rfl
  | ok hperm => simp only [Name.sort_eq_of_perm hperm]

end FileSystem

/-- **ORDER**: let two file systems store the same under distinct names, be
    used from the same directory, and differ only in the order in which
    each directory enumerates the names.  Then
    every path is listed alike on both: with the same entries in the same
    order and the same told of them, or with the same error.  So every
    drawing on the one is the drawing on the other: with the same result,
    the same bytes in the sink, whatever it takes, and the same log. -/
theorem render_enumeration {files files' : FileSystem} (h : files.Reordered files')
    (hdistinct : files.root.Throughout Node.DistinctNames) :
    (∀ path, files.list path = files'.list path) ∧
      ∀ maxLevel root sink,
        render files.list maxLevel root sink = render files'.list maxLevel root sink := by
  have hlist : files.list = files'.list := funext (FileSystem.list_eq_of_reordered h hdistinct)
  refine ⟨fun path => congrFun hlist path, fun maxLevel root sink => ?_⟩
  rw [hlist]

/-- Two names that are shown alike, the later one first, of a file and of a
    directory with a dangling link after a file. -/
def lateFirstTree : FileSystem :=
  ⟨.directory .granted
    [([0xFF], .directory .granted [([0x62], .file), ([0x61], .link [0x78])]), ([0xFE], .file)],
    [], rfl⟩

/-- The same with the earlier name first in both directories. -/
def earlyFirstTree : FileSystem :=
  ⟨.directory .granted
    [([0xFE], .file), ([0xFF], .directory .granted [([0x61], .link [0x78]), ([0x62], .file)])],
    [], rfl⟩

theorem render_enumeration_lateFirst :
    lateFirstTree.Reordered earlyFirstTree ∧
      lateFirstTree.root.Throughout Node.DistinctNames ∧
      render lateFirstTree.list 2 [0x2E] .unlimited =
        render earlyFirstTree.list 2 [0x2E] .unlimited ∧
      (render lateFirstTree.list 2 [0x2E] .unlimited).sink.held =
        Text.encode "├── \uFFFD\n└── \uFFFD/\n    ├── a\n    └── b\n" := by
  have hinner : Node.Reordered
      (.directory .granted [([0x62], .file), ([0x61], .link [0x78])])
      (.directory .granted [([0x61], .link [0x78]), ([0x62], .file)]) :=
    .directory (List.Perm.swap _ _ _) (.cons (.link _) (.cons .file .nil))
  have hsame : lateFirstTree.Reordered earlyFirstTree :=
    ⟨.directory (List.Perm.swap _ _ _) (.cons .file (.cons hinner .nil)), rfl⟩
  have hdistinct : lateFirstTree.root.Throughout Node.DistinctNames := by
    simp [lateFirstTree, Node.DistinctNames, Node.children]
  obtain ⟨-, hrender⟩ := render_enumeration hsame hdistinct
  refine ⟨hsame, hdistinct, hrender 2 [0x2E] .unlimited, by cbv⟩

end TreeSketch
