import TreeSketch.Proofs.Resolution

/-! # The locations below a node

    A location is the names on the way down from a node to one stored below
    it.  `Node.locations` has those down to a depth, read off the tree alone
    without paths or listings: what names lead to and nothing else
    (`mem_locations`), each once and in the order of the names
    (`locations_ordered`), and right below what else is below its parent
    (`locations_parent`). -/

namespace TreeSketch

/-- That the names in a directory are ones it may hold, each once. -/
structure Node.WellNamed (node : Node) : Prop where
  stored : ∀ child ∈ node.children, child.1.IsStored
  distinct : (node.children.map Prod.fst).Nodup

instance (node : Node) : Decidable node.WellNamed :=
  decidable_of_iff ((∀ child ∈ node.children, child.1.IsStored) ∧
      (node.children.map Prod.fst).Nodup)
    ⟨fun h => ⟨h.1, h.2⟩, fun h => ⟨h.stored, h.distinct⟩⟩

/-- That a node is no link. -/
def Node.NotLink (node : Node) : Prop :=
  ∀ target, node ≠ .link target

namespace Node

/-- A directory has a child of every name it lists, and of no other. -/
theorem exists_child?_iff {name : Name} {node : Node} :
    (∃ child, node.child? name = some child) ↔ name ∈ node.children.map Prod.fst := by
  constructor
  · rintro ⟨child, h⟩
    exact List.mem_map.mpr ⟨_, mem_children_of_child? h, rfl⟩
  · intro h
    obtain ⟨⟨name', child⟩, hmem, rfl⟩ := List.mem_map.mp h
    rw [child?_eq]
    exact Option.isSome_iff_exists.mp (List.lookup_isSome_iff.mpr ⟨_, hmem, beq_self_eq_true _⟩)

theorem descend?_cons_eq_some_iff {name : Name} {rest : Location} {node below : Node} :
    node.descend? (name :: rest) = some below ↔
      ∃ child, node.child? name = some child ∧ child.descend? rest = some below :=
  Option.bind_eq_some_iff

theorem descend?_append (start rest : Location) :
    ∀ node : Node, node.descend? (start ++ rest) = (node.descend? start).bind (descend? rest) := by
  induction start with
  | nil => intro node; rfl
  | cons name start ih =>
      intro node
      rw [List.cons_append, descend?, descend?, Option.bind_assoc, funext ih]

theorem Throughout.child? {P : Node → Prop} {node child : Node} (h : node.Throughout P)
    {name : Name} (hchild : node.child? name = some child) : child.Throughout P :=
  (throughout_iff.mp h).2 _ (mem_children_of_child? hchild)

/-- On the way to a directory there are only directories. -/
theorem isDirectory_of_descend? {location : Location} {node below : Node}
    (h : node.descend? location = some below) (hdir : below.isDirectory = true) :
    node.isDirectory = true := by
  cases location with
  | nil => exact Option.some.inj h ▸ hdir
  | cons name rest =>
      obtain ⟨child, hchild, -⟩ := descend?_cons_eq_some_iff.mp h
      cases node with
      | directory permissions children => rfl
      | file => cases hchild
      | pipe => cases hchild
      | link target => cases hchild

/-- What is had throughout is had throughout below. -/
theorem Throughout.descend? {P : Node → Prop} {location : Location} :
    ∀ {node below : Node}, node.Throughout P → node.descend? location = some below →
      below.Throughout P := by
  induction location with
  | nil =>
      intro node below h hbelow
      exact Option.some.inj hbelow ▸ h
  | cons name rest ih =>
      intro node below h hbelow
      obtain ⟨child, hchild, hrest⟩ := descend?_cons_eq_some_iff.mp hbelow
      exact ih (h.child? hchild) hrest

/-- The locations that begin with a name: its own, then those that go on
    below the child of that name. -/
def locationsFrom (below : Node → List Location) (node : Node) (name : Name) : List Location :=
  [name] :: match node.child? name with
    | none => []
    | some child => (below child).map (name :: ·)

/-- The locations below a node down to a depth, in the order of their names,
    each before those below it. -/
def locations : Nat → Node → List Location
  | 0, _ => []
  | depth + 1, node =>
    (Name.sort (node.children.map Prod.fst)).flatMap (locationsFrom (locations depth) node)

theorem locationsFrom_of_child? {node child : Node} {name : Name}
    (h : node.child? name = some child) (below : Node → List Location) :
    locationsFrom below node name = [name] :: (below child).map (name :: ·) := by
  rw [locationsFrom, h]

theorem mem_locationsFrom {below : Node → List Location} {node : Node} {name : Name}
    {location : Location} :
    location ∈ locationsFrom below node name ↔
      ∃ rest, location = name :: rest ∧
        (rest = [] ∨ ∃ child, node.child? name = some child ∧ rest ∈ below child) := by
  rw [locationsFrom, List.mem_cons]
  constructor
  · rintro (rfl | hbelow)
    · exact ⟨[], rfl, Or.inl rfl⟩
    · cases hchild : node.child? name with
      | none => rw [hchild] at hbelow; cases hbelow
      | some child =>
          rw [hchild] at hbelow
          obtain ⟨rest, hrest, rfl⟩ := List.mem_map.mp hbelow
          exact ⟨rest, rfl, Or.inr ⟨child, rfl, hrest⟩⟩
  · rintro ⟨rest, rfl, rfl | ⟨child, hchild, hrest⟩⟩
    · exact Or.inl rfl
    · rw [hchild]
      exact Or.inr (List.mem_map.mpr ⟨rest, hrest, rfl⟩)

/-- The enumeration holds what names lead to within the depth, and nothing
    else. -/
theorem mem_locations {depth : Nat} :
    ∀ {node : Node} {location : Location}, location ∈ node.locations depth ↔
      1 ≤ location.length ∧ location.length ≤ depth ∧
        ∃ below, node.descend? location = some below := by
  induction depth with
  | zero =>
      intro node location
      constructor
      · intro h; cases h
      · rintro ⟨hone, hzero, -⟩; omega
  | succ depth ih =>
      intro node location
      -- what lies below a name lies below the child of that name, one level less deep
      rw [locations, List.mem_flatMap]
      constructor
      · rintro ⟨name, hname, hlocation⟩
        obtain ⟨rest, rfl, hrest⟩ := mem_locationsFrom.mp hlocation
        refine ⟨Nat.succ_le_succ (Nat.zero_le _), ?_⟩
        rcases hrest with rfl | ⟨child, hchild, hrest⟩
        · obtain ⟨child, hchild⟩ := exists_child?_iff.mpr ((Name.sort_perm _).mem_iff.mp hname)
          exact ⟨Nat.succ_le_succ (Nat.zero_le depth), child,
            descend?_cons_eq_some_iff.mpr ⟨child, hchild, rfl⟩⟩
        · obtain ⟨-, hlen, below, hbelow⟩ := ih.mp hrest
          exact ⟨Nat.succ_le_succ hlen, below,
            descend?_cons_eq_some_iff.mpr ⟨child, hchild, hbelow⟩⟩
      · rintro ⟨hone, hlen, below, hbelow⟩
        cases location with
        | nil => exact absurd hone (by decide)
        | cons name rest =>
            obtain ⟨child, hchild, hrest⟩ := descend?_cons_eq_some_iff.mp hbelow
            have hname := exists_child?_iff.mp ⟨child, hchild⟩
            refine ⟨name, (Name.sort_perm _).mem_iff.mpr hname, mem_locationsFrom.mpr ⟨rest, rfl, ?_⟩⟩
            by_cases hnil : rest = []
            · exact Or.inl hnil
            · have hmem : rest ∈ child.locations depth := ih.mpr
                ⟨List.length_pos_iff.mpr hnil, Nat.le_of_succ_le_succ hlen, below, hrest⟩
              exact Or.inr ⟨child, hchild, hmem⟩

theorem locations_of_not_directory {node : Node} (h : ¬ node.isDirectory = true) (depth : Nat) :
    node.locations depth = [] := by
  have hchildren : node.children = [] := by
    cases node with
    | directory permissions children => exact absurd rfl h
    | file => rfl
    | pipe => rfl
    | link target => rfl
  cases depth with
  | zero => rfl
  | succ depth =>
      rw [locations, hchildren, List.map_nil, Name.sort, List.mergeSort_nil, List.flatMap_nil]

/-- Distinct names in order are in strict order. -/
theorem sort_strictly_ordered {names : List Name} (h : names.Nodup) :
    (Name.sort names).Pairwise (· < ·) := by
  have hdistinct : (Name.sort names).Nodup := (Name.sort_perm names).nodup_iff.mpr h
  refine ((Name.sort_ordered names).and hdistinct).imp ?_
  rintro a b ⟨hle, hne⟩
  by_contra hlt
  exact hne (List.le_antisymm hle (List.not_lt.mp hlt))

/-- A name's own location comes first, and the others in their order. -/
theorem locationsFrom_ordered {below : Node → List Location} {node : Node} {name : Name}
    (hne : ∀ child, ∀ location ∈ below child, location ≠ [])
    (hbelow : ∀ child, node.child? name = some child → (below child).Pairwise (· < ·)) :
    (locationsFrom below node name).Pairwise (· < ·) := by
  rw [locationsFrom]
  cases hchild : node.child? name with
  | none => exact List.pairwise_singleton _ _
  | some child =>
      refine List.pairwise_cons.mpr ⟨?_, List.pairwise_map.mpr ((hbelow child hchild).imp ?_)⟩
      · intro later hlater
        obtain ⟨rest, hrest, rfl⟩ := List.mem_map.mp hlater
        obtain ⟨next, rest', rfl⟩ := List.exists_cons_of_ne_nil (hne child rest hrest)
        exact List.cons_lt_cons_self.mpr (List.nil_lt_cons _ _)
      · intro a b hab
        exact List.cons_lt_cons_self.mpr hab

/-- Each location is enumerated once, in the order of the names on the way
    to it. -/
theorem locations_ordered {depth : Nat} :
    ∀ {node : Node}, node.Throughout WellNamed → (node.locations depth).Pairwise (· < ·) := by
  induction depth with
  | zero => intro _ _; exact List.Pairwise.nil
  | succ depth ih =>
      intro node hnames
      refine List.pairwise_flatMap.mpr ⟨?_, ?_⟩
      · intro name _
        refine locationsFrom_ordered ?_ fun child hchild => ih (hnames.child? hchild)
        intro child location hlocation
        exact List.length_pos_iff.mp (mem_locations.mp hlocation).1
      · -- two locations that begin with different names stand as the names do
        refine (sort_strictly_ordered hnames.here.distinct).imp ?_
        intro a b hab x hx y hy
        obtain ⟨xs, rfl, -⟩ := mem_locationsFrom.mp hx
        obtain ⟨ys, rfl, -⟩ := mem_locationsFrom.mp hy
        exact List.cons_lt_cons_iff.mpr (Or.inl hab)

/-! ## Parents -/

/-- With a location its parents are enumerated too. -/
theorem mem_locations_of_append {node : Node} {depth : Nat} {location rest : Location}
    (h : location ++ rest ∈ node.locations depth) (hne : location ≠ []) :
    location ∈ node.locations depth := by
  obtain ⟨-, hlen, below, hbelow⟩ := mem_locations.mp h
  rw [descend?_append] at hbelow
  obtain ⟨there, hthere, -⟩ := Option.bind_eq_some_iff.mp hbelow
  rw [List.length_append] at hlen
  exact mem_locations.mpr ⟨List.length_pos_iff.mpr hne, by omega, there, hthere⟩

theorem lt_append_singleton (location : Location) (name : Name) :
    location < location ++ [name] := by
  induction location with
  | nil => exact List.nil_lt_cons _ _
  | cons first rest ih => exact List.cons_lt_cons_self.mpr ih

/-- What stands between a location and one a name further down lies below
    it. -/
theorem isPrefix_of_between {location : Location} {name : Name} :
    ∀ {other : Location}, location < other → other < location ++ [name] → location <+: other := by
  induction location with
  | nil => intro other _ _; exact List.nil_prefix
  | cons first rest ih =>
      intro other hafter hbefore
      cases other with
      | nil => exact absurd hafter (List.not_lt_nil _)
      | cons first' rest' =>
          rw [List.cons_append] at hbefore
          rcases List.cons_lt_cons_iff.mp hafter with hlt | ⟨rfl, hlt⟩
          · -- the two would part at their first names, in both orders
            rcases List.cons_lt_cons_iff.mp hbefore with hlt' | ⟨rfl, -⟩
            · exact absurd hlt' (List.lt_asymm hlt)
            · exact absurd hlt (List.lt_irrefl _)
          · have hlt' := List.cons_lt_cons_self.mp hbefore
            exact (List.prefix_cons_inj first).mpr (ih hlt hlt')

/-- Of locations in order, a smaller one stands before a greater, and what is
    between them in the list is between them in the order. -/
theorem exists_between {locations before after : List Location} {low high : Location}
    (horder : locations.Pairwise (· < ·)) (hsplit : locations = before ++ high :: after)
    (hlow : low ∈ locations) (hlt : low < high) :
    ∃ above between, before = above ++ low :: between ∧
      ∀ other ∈ between, low < other ∧ other < high := by
  rw [hsplit] at horder hlow
  obtain ⟨hbefore, hafter, hcross⟩ := List.pairwise_append.mp horder
  have hearlier : low ∈ before := by
    refine (List.mem_append.mp hlow).resolve_right fun hlater => ?_
    rcases List.mem_cons.mp hlater with rfl | hlater
    · exact List.lt_irrefl _ hlt
    · exact List.lt_asymm hlt ((List.pairwise_cons.mp hafter).1 low hlater)
  obtain ⟨above, between, rfl⟩ := List.append_of_mem hearlier
  obtain ⟨-, hbetween, -⟩ := List.pairwise_append.mp hbefore
  refine ⟨above, between, rfl, fun other hother => ⟨?_, ?_⟩⟩
  · exact (List.pairwise_cons.mp hbetween).1 other hother
  · exact hcross other (List.mem_append_right _ (List.mem_cons_of_mem _ hother)) _
      List.mem_cons_self

/-- Every location below another comes after it, with nothing between but
    what lies below it too. -/
theorem locations_parent {node : Node} {depth : Nat} (hnames : node.Throughout WellNamed)
    {before after : List Location} {location : Location} {name : Name}
    (hsplit : node.locations depth = before ++ (location ++ [name]) :: after)
    (hne : location ≠ []) :
    ∃ above between, before = above ++ location :: between ∧
      ∀ other ∈ between, location <+: other := by
  have hmem : location ++ [name] ∈ node.locations depth := by
    rw [hsplit]
    exact List.mem_append_right _ List.mem_cons_self
  obtain ⟨above, between, hbefore, hbetween⟩ := exists_between (locations_ordered hnames) hsplit
    (mem_locations_of_append hmem hne) (lt_append_singleton location name)
  refine ⟨above, between, hbefore, fun other hother => ?_⟩
  obtain ⟨hlow, hhigh⟩ := hbetween other hother
  exact isPrefix_of_between hlow hhigh

end Node

end TreeSketch
