import TreeSketch.Log.Event
import TreeSketch.Proofs.Encoding
import TreeSketch.Proofs.StoredTree

/-! # What a listing holds

    A directory is opened or refused for what its own path leads to
    (`FileSystem.Refuses`); nothing about its entries can make it fail.  Once
    it is open its listing is exact: an entry for each raw name, in the
    strict order of the names' bytes (`Entry.IsOf`), and an event for each
    entry whose path leads nowhere (`Listing.IsExact`).

    `list_exact` puts these together.  What is sorted are bytes; where they
    are UTF-8, the names that are shown are the raw ones and in order too. -/

namespace TreeSketch

/-! ## Opening -/

/-- Why the directory at a path cannot be opened. -/
inductive FileSystem.Refuses (files : FileSystem) (dir : Path) : Cause → Prop where
  /-- The path leads nowhere. -/
  | nowhere {cause : Cause} (hresolve : files.resolve dir = .error cause) : Refuses files dir cause
  /-- The path leads to something else. -/
  | elsewhere {place : Place} (hresolve : files.resolve dir = .ok place)
      (hnode : place.node.isDirectory = false) : Refuses files dir (.system .notDirectory)
  /-- The directory may not be read. -/
  | unreadable (hbit : files.ReadBit dir false) : Refuses files dir (.system .permissionDenied)

namespace FileSystem

variable {files : FileSystem} {dir : Path} {name : Name}

theorem readNames_eq_error_iff {cause : Cause} :
    files.readNames dir = .error cause ↔ files.Refuses dir cause := by
  constructor
  · intro h
    rw [readNames] at h
    cases hresolve : files.resolve dir with
    | error cause' =>
        simp only [hresolve] at h
        obtain rfl := Except.error.inj h
        exact .nowhere hresolve
    | ok place =>
        simp only [hresolve] at h
        cases hnode : place.node with
        | directory permissions children =>
            simp only [hnode] at h
            by_cases hread : permissions.read = true
            · rw [if_pos hread] at h
              cases h
            · rw [if_neg hread] at h
              obtain rfl := Except.error.inj h
              exact .unreadable ⟨place, permissions, children, hresolve, hnode,
                eq_false_of_ne_true hread⟩
        | file | pipe | link target =>
            simp only [hnode] at h
            obtain rfl := Except.error.inj h
            exact .elsewhere hresolve (by rw [hnode]; rfl)
  · intro h
    cases h with
    | nowhere hresolve => rw [readNames, hresolve]
    | elsewhere hresolve hnode =>
        rw [readNames, hresolve]
        dsimp only
        split
        · next hdir => rw [hdir] at hnode; cases hnode
        · rfl
    | unreadable hbit => exact readNames_of_unreadable hbit

/-- A directory is not listed exactly if it cannot be opened, whatever is in
    it. -/
theorem list_eq_error_iff {e : Error} :
    files.list dir = .error e ↔ ∃ cause, e = .access dir cause ∧ files.Refuses dir cause := by
  simp only [← readNames_eq_error_iff]
  rw [list]
  cases files.readNames dir with
  | error cause =>
      constructor
      · intro h
        exact ⟨cause, (Except.error.inj h).symm, rfl⟩
      · rintro ⟨cause', rfl, h⟩
        rw [Except.error.inj h]
  | ok names =>
      constructor
      · intro h; cases h
      · rintro ⟨cause, -, h⟩; cases h

end FileSystem

/-! ## Entries -/

/-- What stands between a directory's path and the name of an entry: a
    separator, unless the path ends in one. -/
def Path.joint (dir : Path) : Bytes :=
  if dir.getLast? = some separator then [] else [separator]

theorem Path.child_eq_joint (dir : Path) (name : Name) : dir.child name = dir ++ dir.joint ++ name := by
  rw [child, joint]
  by_cases h : dir.getLast? = some separator
  · rw [if_pos h, if_pos h, List.append_nil]
  · rw [if_neg h, if_neg h, List.append_assoc]
    rfl

/-- That an entry is the one of a raw name in the directory at `dir`: it goes
    by the directory's path and the name, shows the name as text, and is a
    directory exactly if its path, links followed, leads to one. -/
structure Entry.IsOf (files : FileSystem) (dir : Path) (raw : Name) (entry : Entry) : Prop where
  path : entry.path = dir ++ dir.joint ++ raw
  name : entry.name = Text.decodeLossy raw
  kind : entry.isDirectory = true ↔
    ∃ place, files.resolve entry.path = .ok place ∧ place.node.isDirectory = true

/-- What the log is told of a listing's entries. -/
def Listing.events (listing : Listing) : List Event :=
  listing.unexamined.map fun (path, cause) => .unexamined path cause

/-- That an event tells of an entry that its path leads nowhere, and why. -/
def Event.TellsOf (files : FileSystem) (entry : Entry) (event : Event) : Prop :=
  ∃ cause, files.resolve entry.path = .error cause ∧ event = .unexamined entry.path cause

/-- That a listing is exactly that of raw names in the directory at `dir`: it
    has their entries in this order, and tells in the same order of those
    whose paths lead nowhere, of each once and of no others. -/
structure Listing.IsExact (files : FileSystem) (dir : Path) (names : List Name)
    (listing : Listing) : Prop where
  entries : List.Forall₂ (Entry.IsOf files dir) names listing.entries
  events : List.Forall₂ (Event.TellsOf files)
    (listing.entries.filter fun entry => !(files.resolve entry.path).isOk) listing.events

namespace FileSystem

variable {files : FileSystem} {dir : Path} {names : List Name} {listing : Listing}

theorem isOf_entryAt (files : FileSystem) (dir : Path) (raw : Name) :
    Entry.IsOf files dir raw (files.entryAt dir raw) where
  path := Path.child_eq_joint dir raw
  name := rfl
  kind := by
    constructor
    · intro h
      exact resolve_of_isDirectory h
    · rintro ⟨place, hresolve, hdir⟩
      have hchild : files.resolve (dir.child raw) = .ok place := hresolve
      refine decide_eq_true ?_
      show files.kindAt (dir.child raw) = .directory
      simp only [kindAt, hchild, if_pos hdir]

/-- Of the entries of names those are told of whose paths lead nowhere. -/
theorem forall₂_tellsOf (files : FileSystem) (dir : Path) (names : List Name) :
    List.Forall₂ (Event.TellsOf files)
      ((names.map (files.entryAt dir)).filter fun entry => !(files.resolve entry.path).isOk)
      ((names.filterMap fun name => files.failureAt (dir.child name)).map
        fun (path, cause) => .unexamined path cause) := by
  induction names with
  | nil => exact .nil
  | cons raw rest ih =>
      have hpath : (files.entryAt dir raw).path = dir.child raw := rfl
      rw [List.map_cons]
      cases hresolve : files.resolve (dir.child raw) with
      | ok place =>
          have hnone : files.failureAt (dir.child raw) = none := by rw [failureAt, hresolve]
          simp only [List.filterMap_cons, hnone]
          rw [List.filter_cons_of_neg (by simp [hpath, hresolve, Except.isOk, Except.toBool])]
          exact ih
      | error cause =>
          have hsome : files.failureAt (dir.child raw) = some (dir.child raw, cause) := by
            rw [failureAt, hresolve]
          simp only [List.filterMap_cons, hsome, List.map_cons]
          rw [List.filter_cons_of_pos (by simp [hpath, hresolve, Except.isOk, Except.toBool])]
          exact .cons ⟨cause, hresolve, rfl⟩ ih

/-- **THE LISTING** of a directory is exactly that of its names in order. -/
theorem isExact_of_list (hread : files.readNames dir = .ok names)
    (h : files.list dir = .ok listing) : listing.IsExact files dir (Name.sort names) := by
  rw [list, hread] at h
  obtain rfl := Except.ok.inj h
  refine ⟨?_, forall₂_tellsOf files dir _⟩
  rw [List.forall₂_map_right_iff]
  exact List.forall₂_same.mpr fun raw _ => isOf_entryAt files dir raw

/-- In a directory that may not be searched every entry is a file, since no
    path goes on from there. -/
theorem isDirectory_entryAt_of_unsearchable {here : Place} {permissions : Permissions}
    {children : List (Name × Node)} (hhere : files.resolve dir = .ok here)
    (hnode : here.node = .directory permissions children) (hsearch : permissions.search = false)
    {raw : Name} (hraw : raw.IsOrdinary) : (files.entryAt dir raw).isDirectory = false := by
  by_contra hdir
  obtain ⟨there, hthere, -⟩ := resolve_of_isDirectory (eq_true_of_ne_false hdir)
  obtain ⟨left, -, hleaves⟩ := exists_leaves hhere
  have hstep : here.step raw = .error .permissionDenied := by
    simp [Place.step, hnode, hraw.ne_nil, hsearch]
  have hresolve := (resolve_eq_ok_iff.mp hthere).2
  rw [hleaves.resolve_pieces_child, Path.pieces_of_isOrdinary hraw,
    Place.resolve_cons_of_error hstep] at hresolve
  cases hresolve

end FileSystem

/-- Entries of names that are UTF-8 show the raw names. -/
theorem Entry.encode_names {files : FileSystem} {dir : Path} {names : List Name}
    {entries : List Entry} (h : List.Forall₂ (Entry.IsOf files dir) names entries)
    (hvalid : ∀ raw ∈ names, raw.toByteArray.IsValidUTF8) :
    entries.map (fun entry => Text.encode entry.name) = names := by
  induction h with
  | nil => rfl
  | cons hentry _ ih =>
      obtain ⟨hraw, hrest⟩ := List.forall_mem_cons.mp hvalid
      obtain ⟨text, rfl⟩ := Text.isValidUTF8_iff.mp hraw
      rw [List.map_cons, hentry.name, Text.decodeLossy_encode, ih hrest]

/-- **LISTING**: let the names in directories be ones they may hold, each
    once.  A directory is listed exactly if its path leads to one with its
    read bit; otherwise the error has the path as it was given and the
    cause of the refusal.  The listing is exactly that of the raw names, each
    once, in the strict order of their bytes.  If the directory may not be
    searched, every entry is a file.  If all raw names are UTF-8, the names
    shown are the raw ones, and are in strict order too. -/
theorem list_exact {files : FileSystem} (hnames : files.root.Throughout Node.WellNamed)
    (dir : Path) :
    ((∃ listing, files.list dir = .ok listing) ↔ files.ReadBit dir true) ∧
    (∀ e, files.list dir = .error e ↔ ∃ cause, e = .access dir cause ∧ files.Refuses dir cause) ∧
    ∀ listing, files.list dir = .ok listing →
      ∃ place permissions children names, files.resolve dir = .ok place ∧
        place.node = .directory permissions children ∧
        names.Perm (children.map Prod.fst) ∧ names.Pairwise (· < ·) ∧
        listing.IsExact files dir names ∧
        (permissions.search = false → ∀ entry ∈ listing.entries, entry.isDirectory = false) ∧
        ((∀ raw ∈ names, raw.toByteArray.IsValidUTF8) →
          listing.entries.map (fun entry => Text.encode entry.name) = names ∧
            listing.entries.Pairwise fun a b => a.name < b.name) := by
  refine ⟨?_, fun e => FileSystem.list_eq_error_iff, ?_⟩
  · rw [FileSystem.exists_listing_iff, FileSystem.exists_readNames_iff]
  · intro listing hlist
    obtain ⟨names, hread⟩ := FileSystem.exists_listing_iff.mp ⟨listing, hlist⟩
    have hexact := FileSystem.isExact_of_list hread hlist
    obtain ⟨place, permissions, children, hresolve, hnode, -, rfl⟩ := FileSystem.readNames_eq_ok hread
    have hwell : Node.WellNamed (.directory permissions children) := by
      rw [← hnode]
      exact (FileSystem.all_of_resolve (Node.throughout_passesDown _) hnames hresolve).node.here
    have hordered : (Name.sort (children.map Prod.fst)).Pairwise (· < ·) :=
      Node.sort_strictly_ordered hwell.distinct
    refine ⟨place, permissions, children, _, hresolve, hnode, Name.sort_perm _, hordered, hexact,
      ?_, ?_⟩
    · intro hsearch entry hentry
      obtain ⟨stored, hstored, raw, hraw, rfl⟩ := FileSystem.exists_name_of_list hlist hentry
      obtain rfl := Except.ok.inj (hread.symm.trans hstored)
      obtain ⟨child, hchild, rfl⟩ := List.mem_map.mp hraw
      exact FileSystem.isDirectory_entryAt_of_unsearchable hresolve hnode hsearch
        (hwell.stored child hchild).toIsOrdinary
    · intro hvalid
      have hshown := Entry.encode_names hexact.entries hvalid
      refine ⟨hshown, ?_⟩
      rw [← hshown, List.pairwise_map] at hordered
      exact hordered.imp Text.encode_lt_encode_iff.mp

/-- In a directory beside the current one: a link to nothing, a name that is
    not UTF-8, a directory with a directory in it that may be read but not
    searched, and an absolute link to that. -/
def mixedTree : FileSystem :=
  ⟨.directory .granted
    [([0x68], .directory .granted []),
      ([0x74], .directory .granted
        [([0x62], .link [0x2F, 0x74, 0x2F, 0x7A]), ([0x61, 0x62], .file), ([0xFF], .pipe),
          ([0x63], .link [0x2F, 0x74, 0x2F, 0x61]),
          ([0x61], .directory ⟨true, false⟩
            [([0x79], .directory .granted []), ([0x78], .file)])])], [[0x68]], rfl⟩

/-- The directory that may not be searched is listed by way of its link, and
    a file refused by a path from the current directory. -/
theorem list_exact_mixed :
    mixedTree.root.Throughout Node.WellNamed ∧
      mixedTree.list [0x2F, 0x74, 0x2F] = .ok
        ⟨[⟨"a", [0x2F, 0x74, 0x2F, 0x61], .directory⟩,
            ⟨"ab", [0x2F, 0x74, 0x2F, 0x61, 0x62], .file⟩, ⟨"b", [0x2F, 0x74, 0x2F, 0x62], .file⟩,
            ⟨"c", [0x2F, 0x74, 0x2F, 0x63], .directory⟩,
            ⟨"\uFFFD", [0x2F, 0x74, 0x2F, 0xFF], .file⟩],
          [([0x2F, 0x74, 0x2F, 0x62], .system .notFound)]⟩ ∧
      mixedTree.ReadBit [0x2F, 0x74, 0x2F] true ∧
      (∃ (names : List Name) (listing : Listing), names.Perm [[0x79], [0x78]] ∧
        names.Pairwise (· < ·) ∧ listing.IsExact mixedTree [0x2F, 0x74, 0x2F, 0x63] names ∧
        (∀ entry ∈ listing.entries, entry.isDirectory = false) ∧
        listing.events =
          [.unexamined [0x2F, 0x74, 0x2F, 0x63, 0x2F, 0x78] (.system .permissionDenied),
            .unexamined [0x2F, 0x74, 0x2F, 0x63, 0x2F, 0x79] (.system .permissionDenied)]) ∧
      mixedTree.Refuses [0x2E, 0x2E, 0x2F, 0x74, 0x2F, 0x61, 0x62] (.system .notDirectory) := by
  have hnames : mixedTree.root.Throughout Node.WellNamed := by
    simp only [mixedTree, Node.throughout_directory, Node.throughout_file, Node.throughout_pipe,
      Node.throughout_link, List.forall_mem_cons, List.not_mem_nil, false_imp_iff, implies_true,
      and_true]
    decide
  have hlist : mixedTree.list [0x2F, 0x74, 0x2F] = .ok
      ⟨[⟨"a", [0x2F, 0x74, 0x2F, 0x61], .directory⟩,
          ⟨"ab", [0x2F, 0x74, 0x2F, 0x61, 0x62], .file⟩, ⟨"b", [0x2F, 0x74, 0x2F, 0x62], .file⟩,
          ⟨"c", [0x2F, 0x74, 0x2F, 0x63], .directory⟩,
          ⟨"\uFFFD", [0x2F, 0x74, 0x2F, 0xFF], .file⟩],
        [([0x2F, 0x74, 0x2F, 0x62], .system .notFound)]⟩ := by cbv
  have hbelow : mixedTree.list [0x2F, 0x74, 0x2F, 0x63] = .ok
      ⟨[⟨"x", [0x2F, 0x74, 0x2F, 0x63, 0x2F, 0x78], .file⟩,
          ⟨"y", [0x2F, 0x74, 0x2F, 0x63, 0x2F, 0x79], .file⟩],
        [([0x2F, 0x74, 0x2F, 0x63, 0x2F, 0x78], .system .permissionDenied),
          ([0x2F, 0x74, 0x2F, 0x63, 0x2F, 0x79], .system .permissionDenied)]⟩ := by cbv
  have hfile : mixedTree.list [0x2E, 0x2E, 0x2F, 0x74, 0x2F, 0x61, 0x62] =
      .error (.access [0x2E, 0x2E, 0x2F, 0x74, 0x2F, 0x61, 0x62] (.system .notDirectory)) := by cbv
  obtain ⟨hopens, -, -⟩ := list_exact hnames [0x2F, 0x74, 0x2F]
  obtain ⟨-, -, hlists⟩ := list_exact hnames [0x2F, 0x74, 0x2F, 0x63]
  obtain ⟨-, hfails, -⟩ := list_exact hnames [0x2E, 0x2E, 0x2F, 0x74, 0x2F, 0x61, 0x62]
  obtain ⟨place, permissions, children, names, hresolve, hnode, hperm, hordered, hexact,
    hsearch, -⟩ := hlists _ hbelow
  obtain ⟨cause, heq, hrefuses⟩ := (hfails _).mp hfile
  obtain ⟨-, rfl⟩ := Error.access.inj heq
  have hplace : (mixedTree.resolve [0x2F, 0x74, 0x2F, 0x63]).map Place.node = .ok
      (.directory ⟨true, false⟩ [([0x79], .directory .granted []), ([0x78], .file)]) := by cbv
  rw [hresolve] at hplace
  obtain ⟨rfl, rfl⟩ := Node.directory.inj (hnode.symm.trans (Except.ok.inj hplace))
  exact ⟨hnames, hlist, hopens.mp ⟨_, hlist⟩,
    ⟨names, _, hperm, hordered, hexact, hsearch rfl, rfl⟩, hrefuses⟩

end TreeSketch
