import Mathlib
import TreeSketch.Listing

/-! # What resolution keeps

    Resolution starts at the root or at the current directory, and every
    absolute link takes it back to the root.  What the root has, and steps
    up and down the tree keep, a whole resolution keeps, through however
    many links: `FileSystem.resolve_invariant`.  So it never leaves the
    stored tree, and what passes down from a directory to its children is
    had by every node that a path leads to (`FileSystem.all_of_resolve`).
    The first use is the names: if every stored name has a property, so has
    every name that a path's directory lists (`FileSystem.readNames_named`).

    A resolution can be cut between any two pieces
    (`Place.resolve_of_append`), and goes on with further pieces where it
    came to (`Place.exists_left_of_resolve`).  How many links it may follow
    matters only to one that they stop (`Place.resolve_mono`). -/

namespace TreeSketch

/-- That a stored name is one: not empty, and without a separator. -/
structure Name.IsOrdinary (name : Name) : Prop where
  ne_nil : name ≠ []
  noSeparator : Path.separator ∉ name

/-- That a name is one that a directory may hold. -/
structure Name.IsStored (name : Name) : Prop extends name.IsOrdinary where
  noNul : 0 ∉ name
  ne_self : name ≠ Path.selfPiece
  ne_parent : name ≠ Path.parentPiece
  length_le : name.length ≤ Name.maxLength

instance (name : Name) : Decidable name.IsOrdinary :=
  decidable_of_iff (name ≠ [] ∧ Path.separator ∉ name)
    ⟨fun h => ⟨h.1, h.2⟩, fun h => ⟨h.ne_nil, h.noSeparator⟩⟩

instance (name : Name) : Decidable name.IsStored :=
  decidable_of_iff (name.IsOrdinary ∧ 0 ∉ name ∧ name ≠ Path.selfPiece ∧ name ≠ Path.parentPiece ∧
      name.length ≤ Name.maxLength)
    ⟨fun ⟨hordinary, hnul, hself, hparent, hlength⟩ => ⟨hordinary, hnul, hself, hparent, hlength⟩,
      fun h => ⟨h.toIsOrdinary, h.noNul, h.ne_self, h.ne_parent, h.length_le⟩⟩

/-- A stored name is the one piece of itself. -/
theorem Path.pieces_of_isOrdinary {name : Name} (h : name.IsOrdinary) : pieces name = [name] :=
  List.splitOn_eq_singleton h.noSeparator

/-- That every name stored below a node has a property. -/
inductive Node.Named (ok : Name → Prop) : Node → Prop where
  | directory {permissions : Permissions} {children : List (Name × Node)}
      (hnames : ∀ child ∈ children, ok child.1)
      (hnodes : ∀ child ∈ children, Node.Named ok child.2) :
      Node.Named ok (.directory permissions children)
  | file : Node.Named ok .file
  | pipe : Node.Named ok .pipe
  | link (target : Path) : Node.Named ok (.link target)

/-- That a property passes down from a directory to its children. -/
def Node.PassesDown (P : Node → Prop) : Prop :=
  ∀ permissions children, P (.directory permissions children) → ∀ child ∈ children, P child.2

theorem Node.named_passesDown (ok : Name → Prop) : Node.PassesDown (Node.Named ok) := by
  intro permissions children h
  cases h with
  | directory _ hnodes => exact hnodes

/-- The children of a directory; any other node has none. -/
def Node.children : Node → List (Name × Node)
  | directory _ children => children
  | _ => []

theorem Node.child?_eq (name : Name) (node : Node) :
    node.child? name = node.children.lookup name := by
  cases node <;> rfl

theorem Node.mem_children_of_child? {name : Name} {node child : Node}
    (h : node.child? name = some child) : (name, child) ∈ node.children := by
  rw [child?_eq] at h
  obtain ⟨before, after, hchildren, -⟩ := List.lookup_eq_some_iff.mp h
  rw [hchildren]
  exact List.mem_append_right _ List.mem_cons_self

theorem Node.PassesDown.child? {P : Node → Prop} (hP : Node.PassesDown P) {node child : Node}
    (hnode : P node) {name : Name} (h : node.child? name = some child) : P child := by
  cases node with
  | directory permissions children =>
      exact hP permissions children hnode (name, child) (mem_children_of_child? h)
  | file => cases h
  | pipe => cases h
  | link target => cases h

/-- That a node and every node stored below it have a property. -/
inductive Node.Throughout (P : Node → Prop) : Node → Prop where
  | intro {node : Node} (here : P node) (below : ∀ child ∈ node.children, Node.Throughout P child.2) :
      Node.Throughout P node

namespace Node

variable {P : Node → Prop} {node : Node}

theorem exists_directory_of_isDirectory (h : node.isDirectory = true) :
    ∃ permissions children, node = .directory permissions children := by
  cases node with
  | directory permissions children => exact ⟨permissions, children, rfl⟩
  | file => cases h
  | pipe => cases h
  | link target => cases h

theorem throughout_iff :
    node.Throughout P ↔ P node ∧ ∀ child ∈ node.children, child.2.Throughout P := by
  constructor
  · rintro ⟨here, below⟩
    exact ⟨here, below⟩
  · rintro ⟨here, below⟩
    exact .intro here below

@[simp]
theorem throughout_directory {permissions : Permissions} {children : List (Name × Node)} :
    (directory permissions children).Throughout P ↔
      P (.directory permissions children) ∧ ∀ child ∈ children, child.2.Throughout P :=
  throughout_iff

/-- A node without children has a property throughout if it has it. -/
theorem throughout_of_children_eq_nil (h : node.children = []) : node.Throughout P ↔ P node := by
  rw [throughout_iff, h]
  exact and_iff_left (List.forall_mem_nil _)

@[simp]
theorem throughout_file : file.Throughout P ↔ P .file :=
  throughout_of_children_eq_nil rfl

@[simp]
theorem throughout_pipe : pipe.Throughout P ↔ P .pipe :=
  throughout_of_children_eq_nil rfl

@[simp]
theorem throughout_link {target : Path} : (link target).Throughout P ↔ P (.link target) :=
  throughout_of_children_eq_nil rfl

theorem throughout_passesDown (P : Node → Prop) : PassesDown (Throughout P) :=
  fun _ _ h => (throughout_directory.mp h).2

theorem Throughout.here (h : node.Throughout P) : P node :=
  (throughout_iff.mp h).1

/-- Names are had below a node if they are had in each of its directories. -/
theorem named_iff_throughout {ok : Name → Prop} :
    node.Named ok ↔ node.Throughout fun node => ∀ child ∈ node.children, ok child.1 := by
  constructor
  · intro h
    induction h with
    | directory hnames _ ih => exact .intro hnames ih
    | file => simp [children]
    | pipe => simp [children]
    | link target => simp [children]
  · intro h
    induction h with
    | @intro node hnames _ ih =>
        cases node with
        | directory permissions children => exact .directory hnames ih
        | file => exact .file
        | pipe => exact .pipe
        | link target => exact .link target

end Node

namespace Place

/-- What one lookup keeps, the way along pieces keeps, if links do. -/
theorem walk_invariant {Q : Place → Prop}
    (hstep : ∀ here piece next, Q here → here.step piece = .ok (.arrive next) → Q next)
    {follow : Place → Path → List Name → Except SystemError Place}
    (hfollow : ∀ here target rest there, Q here → follow here target rest = .ok there → Q there)
    {pieces : List Name} :
    ∀ {here there : Place}, Q here → walk follow here pieces = .ok there → Q there := by
  induction pieces with
  | nil =>
      intro here there hhere hwalk
      rw [walk] at hwalk
      exact Except.ok.inj hwalk ▸ hhere
  | cons piece rest ih =>
      intro here there hhere hwalk
      rw [walk] at hwalk
      cases hlookup : here.step piece with
      | error e => rw [hlookup] at hwalk; exact nomatch hwalk
      | ok step =>
          rw [hlookup] at hwalk
          cases step with
          | arrive next => exact ih (hstep here piece next hhere hlookup) hwalk
          | follow target => exact hfollow here target rest there hhere hwalk

variable {top : Place}

/-- A path starts at the top or here. -/
theorem origin_invariant {Q : Place → Prop} {here : Place} (htop : Q top) (hhere : Q here)
    (path : Path) : Q (top.origin here path) := by
  rw [origin]
  split
  · exact htop
  · exact hhere

/-- What the top has and one lookup keeps, a resolution keeps. -/
theorem resolve_invariant {Q : Place → Prop} (htop : Q top)
    (hstep : ∀ here piece next, Q here → here.step piece = .ok (.arrive next) → Q next)
    (links : Nat) :
    ∀ {pieces : List Name} {here there : Place}, Q here →
      top.resolve links here pieces = .ok there → Q there := by
  -- on the links that may still be followed; each stretch between two is a walk
  induction links with
  | zero =>
      intro pieces here there hhere hresolve
      refine walk_invariant hstep ?_ hhere hresolve
      intro _ _ _ _ _ hfollow
      exact nomatch hfollow
  | succ links ih =>
      intro pieces here there hhere hresolve
      refine walk_invariant hstep ?_ hhere hresolve
      intro middle target rest there' hmiddle hfollow
      exact ih (origin_invariant htop hmiddle target) hfollow

/-- What leads to a place leads on from it with more pieces: by itself, or
    by the link that the last stretch to it starts with. -/
theorem walk_append {follow : Place → Path → List Name → Except SystemError Place} {there : Place}
    {pieces : List Name} :
    ∀ {here : Place}, walk follow here pieces = .ok there →
      (∀ more, walk follow here (pieces ++ more) = walk follow there more) ∨
        ∃ middle target rest, follow middle target rest = .ok there ∧
          ∀ more, walk follow here (pieces ++ more) = follow middle target (rest ++ more) := by
  induction pieces with
  | nil =>
      intro here hwalk
      rw [walk] at hwalk
      exact Or.inl fun more => Except.ok.inj hwalk ▸ rfl
  | cons piece rest ih =>
      intro here hwalk
      rw [walk] at hwalk
      simp only [List.cons_append, walk]
      cases hlookup : here.step piece with
      | error e => rw [hlookup] at hwalk; exact nomatch hwalk
      | ok step =>
          rw [hlookup] at hwalk
          cases step with
          | arrive next => exact ih hwalk
          | follow target => exact Or.inr ⟨here, target, rest, hwalk, fun _ => rfl⟩

/-- **GOING ON**: where pieces lead to a place, what is asked with more of
    them is asked from there, with the links that are left by then. -/
theorem exists_left_of_resolve (links : Nat) :
    ∀ {pieces : List Name} {here there : Place}, top.resolve links here pieces = .ok there →
      ∃ left ≤ links, ∀ more,
        top.resolve links here (pieces ++ more) = top.resolve left there more := by
  -- a link's target is put before the pieces that are left, and so before `more`
  induction links with
  | zero =>
      intro pieces here there hresolve
      rcases walk_append hresolve with hmore | ⟨middle, target, rest, hfollow, -⟩
      · exact ⟨0, Nat.le_refl 0, hmore⟩
      · exact nomatch hfollow
  | succ links ih =>
      intro pieces here there hresolve
      rcases walk_append hresolve with hmore | ⟨middle, target, rest, hfollow, hmore⟩
      · exact ⟨links + 1, Nat.le_refl _, hmore⟩
      · obtain ⟨left, hle, hleft⟩ := ih hfollow
        refine ⟨left, Nat.le_succ_of_le hle, fun more => (hmore more).trans ?_⟩
        rw [← List.append_assoc]
        exact hleft more

/-- What comes to anything but a certain error comes to the same where links
    do. -/
theorem walk_agrees {follow follow' : Place → Path → List Name → Except SystemError Place}
    {e : SystemError}
    (hfollow : ∀ here target rest, follow here target rest ≠ .error e →
      follow' here target rest = follow here target rest) {pieces : List Name} :
    ∀ {here : Place}, walk follow here pieces ≠ .error e →
      walk follow' here pieces = walk follow here pieces := by
  induction pieces with
  | nil => intro here _; rfl
  | cons piece rest ih =>
      intro here hwalk
      rw [walk] at hwalk
      rw [walk, walk]
      cases hlookup : here.step piece with
      | error e => rfl
      | ok step =>
          rw [hlookup] at hwalk
          cases step with
          | arrive next => exact ih hwalk
          | follow target => exact hfollow here target rest hwalk

/-- **LINKS TO SPARE**: a resolution that is not stopped for its links comes
    to the same with more of them. -/
theorem resolve_mono {fewer : Nat} :
    ∀ {more : Nat} {here : Place} {pieces : List Name}, fewer ≤ more →
      top.resolve fewer here pieces ≠ .error .linkLoop →
      top.resolve more here pieces = top.resolve fewer here pieces := by
  induction fewer with
  | zero =>
      intro more here pieces _ hfewer
      cases more with
      | zero => rfl
      | succ more => exact walk_agrees (fun _ _ _ hfollow => absurd rfl hfollow) hfewer
  | succ fewer ih =>
      intro more here pieces hle hfewer
      obtain ⟨more, rfl⟩ := Nat.exists_eq_add_of_le' (Nat.le_trans (Nat.succ_pos fewer) hle)
      refine walk_agrees ?_ hfewer
      intro middle target rest hfollow
      exact ih (Nat.le_of_succ_le_succ hle) hfollow

/-- So two that are not stopped for their links come to the same. -/
theorem resolve_eq_of_ne_linkLoop {links links' : Nat} {here : Place} {pieces : List Name}
    (h : top.resolve links here pieces ≠ .error .linkLoop)
    (h' : top.resolve links' here pieces ≠ .error .linkLoop) :
    top.resolve links here pieces = top.resolve links' here pieces := by
  rw [← resolve_mono (Nat.le_max_left links links') h,
    ← resolve_mono (Nat.le_max_right links links') h']

/-- What leads somewhere leads through a place on every part of the way. -/
theorem walk_of_append {follow : Place → Path → List Name → Except SystemError Place}
    {more : List Name} {last : Place} {R : Place → Prop}
    (hfollow : ∀ here target rest, follow here target (rest ++ more) = .ok last →
      ∃ there, follow here target rest = .ok there ∧ R there)
    (hmore : ∀ there, walk follow there more = .ok last → R there) {pieces : List Name} :
    ∀ {here : Place}, walk follow here (pieces ++ more) = .ok last →
      ∃ there, walk follow here pieces = .ok there ∧ R there := by
  induction pieces with
  | nil =>
      intro here hwalk
      exact ⟨here, rfl, hmore here hwalk⟩
  | cons piece rest ih =>
      intro here hwalk
      rw [List.cons_append, walk] at hwalk
      rw [walk]
      cases hlookup : here.step piece with
      | error e => rw [hlookup] at hwalk; exact nomatch hwalk
      | ok step =>
          rw [hlookup] at hwalk
          cases step with
          | arrive next => exact ih hwalk
          | follow target => exact hfollow here target rest hwalk

/-- So a resolution can be cut between any two pieces; what is after the cut
    is resolved with the links that are left by then. -/
theorem resolve_of_append {more : List Name} {last : Place} (links : Nat) :
    ∀ {pieces : List Name} {here : Place}, top.resolve links here (pieces ++ more) = .ok last →
      ∃ there, top.resolve links here pieces = .ok there ∧
        ∃ left ≤ links, top.resolve left there more = .ok last := by
  induction links with
  | zero =>
      intro pieces here hresolve
      refine walk_of_append ?_ (fun there hmore => ⟨0, Nat.le_refl 0, hmore⟩) hresolve
      intro _ _ _ hfollow
      exact nomatch hfollow
  | succ links ih =>
      intro pieces here hresolve
      refine walk_of_append ?_ (fun there hmore => ⟨links + 1, Nat.le_refl _, hmore⟩) hresolve
      intro middle target rest hfollow
      rw [← List.append_assoc] at hfollow
      obtain ⟨there, hthere, left, hleft, hmore⟩ := ih hfollow
      exact ⟨there, hthere, left, Nat.le_succ_of_le hleft, hmore⟩

/-- An empty piece stays at a directory, and is refused anywhere else. -/
theorem step_nil (here : Place) :
    here.step [] = if here.node.isDirectory then .ok (.arrive here) else .error .notDirectory := by
  rw [step]
  cases here.node with
  | directory permissions children => rfl
  | file => rfl
  | pipe => rfl
  | link target => rfl

/-- A stored name leads to the child that has it, if that is no link. -/
theorem step_child {here : Place} {permissions : Permissions} {children : List (Name × Node)}
    {name : Name} {child : Node} (hnode : here.node = .directory permissions children)
    (hsearch : permissions.search = true) (hname : name.IsStored)
    (hlookup : children.lookup name = some child) (hlink : ∀ target, child ≠ .link target) :
    here.step name = .ok (.arrive (here.enter name child)) := by
  rw [step, hnode]
  simp only [hname.ne_nil, hsearch, hname.ne_self, hname.ne_parent,
    Nat.not_lt.mpr hname.length_le, hlookup, if_false, Bool.not_true, Bool.false_eq_true]

/-- A stored name is looked up as the link or the other node that has it. -/
theorem step_stored {here : Place} {name : Name} (hname : name.IsStored) {step : Step}
    (h : here.step name = .ok step) :
    (∃ target, here.node.child? name = some (.link target) ∧ step = .follow target) ∨
      ∃ node, here.node.child? name = some node ∧ (∀ target, node ≠ .link target) ∧
        step = .arrive (here.enter name node) := by
  rw [Place.step] at h
  split at h
  · next permissions children hnode =>
      simp only [hname.ne_nil, hname.ne_self, hname.ne_parent, Nat.not_lt.mpr hname.length_le,
        if_false] at h
      have hchild : here.node.child? name = children.lookup name := by rw [hnode]; rfl
      split at h
      · cases h
      split at h
      · cases h
      · next target hlookup =>
          exact Or.inl ⟨target, hchild.trans hlookup, (Except.ok.inj h).symm⟩
      · next node hlink hlookup =>
          exact Or.inr ⟨node, hchild.trans hlookup, hlink, (Except.ok.inj h).symm⟩
  · cases h

section OnePiece

variable {here next there : Place} {piece : Name}

theorem resolve_nil (top : Place) (links : Nat) (here : Place) :
    top.resolve links here [] = .ok here := by
  cases links <;> rfl

theorem resolve_cons_of_error {e : SystemError} (h : here.step piece = .error e) (links : Nat)
    (more : List Name) : top.resolve links here (piece :: more) = .error e := by
  cases links with
  | zero => rw [resolve, walk, h]
  | succ links => rw [resolve, walk, h]

theorem resolve_cons_of_arrive (h : here.step piece = .ok (.arrive next)) (links : Nat)
    (more : List Name) : top.resolve links here (piece :: more) = top.resolve links next more := by
  cases links with
  | zero => rw [resolve, walk, h]
  | succ links => rw [resolve, walk, h]

/-- A link that is followed leaves fewer links to follow, wherever it
    leads. -/
theorem exists_left_of_follow {target : Path} (h : here.step piece = .ok (.follow target))
    {links : Nat} (hthere : top.resolve links here [piece] = .ok there) :
    ∃ left < links, ∀ more,
      top.resolve links here (piece :: more) = top.resolve left there more := by
  cases links with
  | zero =>
      rw [resolve, walk, h] at hthere
      cases hthere
  | succ links =>
      have hfollow : ∀ more, top.resolve (links + 1) here (piece :: more) =
          top.resolve links (top.origin here target) (Path.pieces target ++ more) := by
        intro more
        rw [resolve, walk, h]
      rw [hfollow, List.append_nil] at hthere
      obtain ⟨left, hle, hleft⟩ := exists_left_of_resolve links hthere
      refine ⟨left, Nat.lt_succ_of_le hle, fun more => ?_⟩
      rw [hfollow, hleft]

end OnePiece

/-- So pieces with an empty one after them lead where they lead without. -/
theorem resolve_of_append_nil {links : Nat} {pieces : List Name} {here there : Place}
    (h : top.resolve links here (pieces ++ [[]]) = .ok there) :
    top.resolve links here pieces = .ok there := by
  obtain ⟨middle, hmiddle, left, -, hlast⟩ := resolve_of_append links h
  have hstep : ∀ {follow}, walk follow middle [[]] = .ok there → middle = there := by
    intro follow hwalk
    rw [walk, step_nil] at hwalk
    by_cases hdir : middle.node.isDirectory = true
    · rw [if_pos hdir] at hwalk
      exact Except.ok.inj hwalk
    · rw [if_neg hdir] at hwalk
      exact nomatch hwalk
  have hsame : middle = there := by
    cases left with
    | zero => exact hstep hlast
    | succ left => exact hstep hlast
  rw [hmiddle, hsame]

/-- Where a lookup may arrive: at the same place, the one above, or a
    child. -/
theorem step_arrive_cases {here next : Place} {piece : Name}
    (h : here.step piece = .ok (.arrive next)) :
    next = here ∨ next = here.parent ∨
      ∃ node, here.node.child? piece = some node ∧ next = here.enter piece node := by
  rw [step] at h
  split at h
  · next permissions children hnode =>
      have hchild : here.node.child? piece = children.lookup piece := by rw [hnode]; rfl
      split at h
      · cases h; exact Or.inl rfl
      split at h
      · exact nomatch h
      split at h
      · cases h; exact Or.inl rfl
      split at h
      · cases h; exact Or.inr (Or.inl rfl)
      split at h
      · exact nomatch h
      split at h
      · exact nomatch h
      · exact nomatch h
      · next node _ hlookup =>
          cases h
          exact Or.inr (Or.inr ⟨node, hchild.trans hlookup, rfl⟩)
  · exact nomatch h

/-- What a step down keeps, going down names keeps. -/
theorem descend_invariant {Q : Place → Prop}
    (henter : ∀ here name node, Q here → here.node.child? name = some node →
      Q (here.enter name node)) {location : Location} :
    ∀ {here : Place}, Q here → Q (here.descend location) := by
  induction location with
  | nil => intro here hhere; exact hhere
  | cons name rest ih =>
      intro here hhere
      rw [descend]
      cases hchild : here.node.child? name with
      | none => exact hhere
      | some node => exact ih (henter here name node hhere hchild)

/-- That the node at a place, and every directory above it, has a
    property. -/
structure All (P : Node → Prop) (here : Place) : Prop where
  node : P here.node
  above : ∀ directory ∈ here.above, P directory.2

namespace All

variable {P : Node → Prop} {here : Place}

theorem parent (h : here.All P) : here.parent.All P := by
  rw [Place.parent]
  cases habove : here.above with
  | nil => exact h
  | cons directory above =>
      have hall := h.above
      rw [habove] at hall
      obtain ⟨hdirectory, hrest⟩ := List.forall_mem_cons.mp hall
      exact ⟨hdirectory, hrest⟩

theorem enter (hP : Node.PassesDown P) (h : here.All P) {name : Name} {node : Node}
    (hchild : here.node.child? name = some node) : (here.enter name node).All P :=
  ⟨hP.child? h.node hchild, List.forall_mem_cons.mpr ⟨h.node, h.above⟩⟩

/-- Lookups stay in the tree. -/
theorem step (hP : Node.PassesDown P) (h : here.All P) {next : Place} {piece : Name}
    (hstep : here.step piece = .ok (.arrive next)) : next.All P := by
  rcases step_arrive_cases hstep with rfl | rfl | ⟨node, hchild, rfl⟩
  · exact h
  · exact h.parent
  · exact h.enter hP hchild

end All

end Place

/-- That the system takes a path at all, whatever is stored. -/
structure Path.IsTaken (path : Path) : Prop where
  noNul : 0 ∉ path
  ne_nil : path ≠ []
  short : path.length < Path.lengthLimit

namespace FileSystem

variable {files : FileSystem}

theorem resolve_of_taken {path : Path} (h : path.IsTaken) :
    files.resolve path =
      ((Place.top files).resolve Path.linkLimit (files.origin path) path.pieces).mapError
        .system := by
  rw [resolve, if_neg h.noNul, if_neg h.ne_nil, if_neg (Nat.not_le.mpr h.short)]

/-- A path resolves if the system takes it and its pieces lead to a place
    from where it starts. -/
theorem resolve_eq_ok_iff {path : Path} {place : Place} :
    files.resolve path = .ok place ↔
      path.IsTaken ∧
        (Place.top files).resolve Path.linkLimit (files.origin path) path.pieces = .ok place := by
  constructor
  · intro h
    rw [resolve] at h
    split at h
    · exact nomatch h
    split at h
    · exact nomatch h
    split at h
    · exact nomatch h
    · next hnul hnil hlength =>
        refine ⟨⟨hnul, hnil, Nat.not_le.mp hlength⟩, ?_⟩
        cases hresolve :
            (Place.top files).resolve Path.linkLimit (files.origin path) path.pieces with
        | error e => rw [hresolve] at h; exact nomatch h
        | ok there => rw [hresolve] at h; exact congrArg Except.ok (Except.ok.inj h)
  · rintro ⟨htaken, hresolve⟩
    rw [resolve_of_taken htaken, hresolve]
    rfl

/-- **WITHIN THE TREE**: what the root has, and steps up and down keep, every
    place has that a path leads to. -/
theorem resolve_invariant {Q : Place → Prop} (htop : Q (.top files))
    (hparent : ∀ here : Place, Q here → Q here.parent)
    (henter : ∀ here name node, Q here → here.node.child? name = some node →
      Q (here.enter name node))
    {path : Path} {place : Place} (h : files.resolve path = .ok place) : Q place := by
  have hstep : ∀ here piece next, Q here → here.step piece = .ok (.arrive next) → Q next := by
    intro here piece next hhere hstep
    rcases Place.step_arrive_cases hstep with rfl | rfl | ⟨node, hchild, rfl⟩
    · exact hhere
    · exact hparent here hhere
    · exact henter here piece node hhere hchild
  have hcurrent : Q (.current files) := Place.descend_invariant henter htop
  exact Place.resolve_invariant htop hstep Path.linkLimit
    (Place.origin_invariant htop hcurrent path) (resolve_eq_ok_iff.mp h).2

/-- The names that are read are those of a directory that the path leads
    to and that may be read. -/
theorem readNames_eq_ok {path : Path} {names : List Name}
    (h : files.readNames path = .ok names) :
    ∃ place permissions children, files.resolve path = .ok place ∧
      place.node = .directory permissions children ∧ permissions.read = true ∧
      names = children.map Prod.fst := by
  rw [readNames] at h
  cases hresolve : files.resolve path with
  | error cause => rw [hresolve] at h; exact nomatch h
  | ok place =>
      rw [hresolve] at h
      cases hnode : place.node with
      | directory permissions children =>
          simp only [hnode] at h
          by_cases hread : permissions.read = true
          · rw [if_pos hread] at h
            exact ⟨place, permissions, children, rfl, hnode, hread, (Except.ok.inj h).symm⟩
          · rw [if_neg hread] at h
            exact nomatch h
      | file => simp only [hnode] at h; exact nomatch h
      | pipe => simp only [hnode] at h; exact nomatch h
      | link target => simp only [hnode] at h; exact nomatch h

/-- What the root of a file system passes down, every place has that a path
    leads to. -/
theorem all_of_resolve {P : Node → Prop} (hP : Node.PassesDown P) (hroot : P files.root)
    {path : Path} {place : Place} (h : files.resolve path = .ok place) : place.All P :=
  resolve_invariant ⟨hroot, List.forall_mem_nil _⟩ (fun _ hhere => hhere.parent)
    (fun _ _ _ hhere hchild => hhere.enter hP hchild) h

/-- What all stored names have, the names of every directory have that a
    path leads to. -/
theorem readNames_named {ok : Name → Prop} (hfiles : files.root.Named ok) {path : Path}
    {names : List Name} (h : files.readNames path = .ok names) : ∀ name ∈ names, ok name := by
  obtain ⟨place, permissions, children, hresolve, hnode, -, rfl⟩ := readNames_eq_ok h
  have hdirectory := (all_of_resolve (Node.named_passesDown ok) hfiles hresolve).node
  rw [hnode] at hdirectory
  cases hdirectory with
  | directory hnames hnodes =>
      intro name hname
      obtain ⟨child, hchild, rfl⟩ := List.mem_map.mp hname
      exact hnames child hchild

/-- What a listed entry is: a name that was read, its path, and its kind. -/
theorem exists_name_of_list {dir : Path} {listing : Listing}
    (h : files.list dir = .ok listing) {entry : Entry} (hentry : entry ∈ listing.entries) :
    ∃ names, files.readNames dir = .ok names ∧
      ∃ name ∈ names, entry = files.entryAt dir name := by
  rw [list] at h
  cases hnames : files.readNames dir with
  | error cause => rw [hnames] at h; exact nomatch h
  | ok names =>
      rw [hnames] at h
      rw [← Except.ok.inj h] at hentry
      obtain ⟨name, hname, rfl⟩ := List.mem_map.mp hentry
      exact ⟨names, rfl, name, (Name.sort_perm names).mem_iff.mp hname, rfl⟩

/-- The path of an entry that is drawn as a directory resolves. -/
theorem resolve_of_isDirectory {dir : Path} {name : Name}
    (h : (files.entryAt dir name).isDirectory = true) :
    ∃ place, files.resolve (dir.child name) = .ok place ∧ place.node.isDirectory = true := by
  have hkind : files.kindAt (dir.child name) = .directory := of_decide_eq_true h
  rw [kindAt] at hkind
  cases hresolve : files.resolve (dir.child name) with
  | error cause => rw [hresolve] at hkind; exact nomatch hkind
  | ok place =>
      simp only [hresolve] at hkind
      by_cases hdir : place.node.isDirectory = true
      · exact ⟨place, rfl, hdir⟩
      · rw [if_neg hdir] at hkind
        exact nomatch hkind

end FileSystem

end TreeSketch
