import TreeSketch.Proofs.Lockstep
import TreeSketch.Proofs.StoredTree

/-! # How the root is spelled

    A directory has many paths: through links, through the directory above
    it, with doubled separators.  A drawing resolves each of the paths that
    it makes from the root's anew, and two spellings differ in all of
    them.  The route:

    * a child's path is resolved from where its directory's leads, so two
      spellings can be told apart by the links that are left and by the
      length of the path, and by nothing else
      (`FileSystem.resolve_child_eq`);
    * trails from two spellings are *alike* if they look the same, go by
      the same names and end at the same place (`Trail.Alike`): the same
      is then in their way, and what goes on from them is alike;
    * so the two drawings keep in step (`forall₂_alike`).

    `render_spelling` is the result for whole drawings. -/

namespace TreeSketch

/-- That a lookup failed for a limit of the system: too many links on the
    way, or too long a path or name. -/
def Cause.IsLimit (cause : Cause) : Prop :=
  cause = .system .linkLoop ∨ cause = .system .nameTooLong

/-- That no entry of a drawing was left unexamined for a limit. -/
def Rendering.WithinLimits (rendering : Rendering Sink) : Prop :=
  ∀ path cause, .unexamined path cause ∈ rendering.log → ¬ cause.IsLimit

/-- That a path does not fail for a limit. -/
def FileSystem.WithinLimits (files : FileSystem) (path : Path) : Prop :=
  ∀ cause, files.resolve path = .error cause → ¬ cause.IsLimit

/-- That no entry that a walk examines at a trail fails for a limit. -/
def Trail.WithinLimits (files : FileSystem) (root : Path) (depth : Nat) (trail : Trail) : Prop :=
  trail.isTried depth = true → ∀ names, files.readNames (trail.target root) = .ok names →
    ∀ name ∈ names, files.WithinLimits ((trail.target root).child name)

/-! ## One directory under two paths -/

namespace FileSystem

variable {files : FileSystem}

/-- What becomes of a child's path: it holds a NUL byte, is too long, or is
    resolved from where the directory is. -/
theorem resolve_child_cases {dir : Path} {here : Place} (h : files.resolve dir = .ok here)
    (name : Name) :
    0 ∈ name ∧ files.resolve (dir.child name) = .error .nulInPath ∨
      0 ∉ name ∧ (files.resolve (dir.child name) = .error (.system .nameTooLong) ∨
        ∃ left, files.resolve (dir.child name) =
          ((Place.top files).resolve left here (Path.pieces name)).mapError .system) := by
  obtain ⟨htaken, -⟩ := resolve_eq_ok_iff.mp h
  by_cases hnul : 0 ∈ name
  · refine Or.inl ⟨hnul, ?_⟩
    rw [resolve, if_pos (Path.nul_mem_child_iff.mpr (Or.inr hnul))]
  · refine Or.inr ⟨hnul, ?_⟩
    by_cases hshort : (dir.child name).length < Path.lengthLimit
    · obtain ⟨left, -, hleaves⟩ := files.exists_leaves h
      exact Or.inr ⟨left, by
        rw [resolve_of_taken (htaken.child hnul hshort), hleaves.resolve_pieces_child]⟩
    · have hchild : 0 ∉ dir.child name := fun hmem =>
        (Path.nul_mem_child_iff.mp hmem).elim htaken.noNul hnul
      left
      rw [resolve, if_neg hchild, if_neg (Path.child_ne_nil htaken.ne_nil name),
        if_pos (Nat.not_lt.mp hshort)]

/-- **ONE STEP**: from two paths of one directory the paths of a child lead to
    one place, or fail alike, unless one of them fails for a limit. -/
theorem resolve_child_eq {dir dir' : Path} {here : Place} (h : files.resolve dir = .ok here)
    (h' : files.resolve dir' = .ok here) {name : Name}
    (hlimit : files.WithinLimits (dir.child name))
    (hlimit' : files.WithinLimits (dir'.child name)) :
    files.resolve (dir.child name) = files.resolve (dir'.child name) := by
  rcases files.resolve_child_cases h name with ⟨hnul, hfails⟩ | ⟨hnul, hlong | ⟨left, hleft⟩⟩
  · rcases files.resolve_child_cases h' name with ⟨-, hfails'⟩ | ⟨hnul', -⟩
    · rw [hfails, hfails']
    · exact absurd hnul hnul'
  · exact absurd (Or.inr rfl) (hlimit _ hlong)
  · rcases files.resolve_child_cases h' name with ⟨hnul', -⟩ | ⟨-, hlong' | ⟨left', hleft'⟩⟩
    · exact absurd hnul' hnul
    · exact absurd (Or.inr rfl) (hlimit' _ hlong')
    · -- neither is stopped for its links, so it does not matter how many were left
      have hspare : (Place.top files).resolve left here (Path.pieces name) ≠ .error .linkLoop :=
        fun hloop =>
          hlimit _ (hleft.trans (congrArg (Except.mapError Cause.system) hloop)) (Or.inl rfl)
      have hspare' : (Place.top files).resolve left' here (Path.pieces name) ≠ .error .linkLoop :=
        fun hloop =>
          hlimit' _ (hleft'.trans (congrArg (Except.mapError Cause.system) hloop)) (Or.inl rfl)
      rw [hleft, hleft', Place.resolve_eq_of_ne_linkLoop hspare hspare']

theorem readNames_eq_of_resolve {dir dir' : Path} {here : Place}
    (h : files.resolve dir = .ok here) (h' : files.resolve dir' = .ok here) :
    files.readNames dir = files.readNames dir' := by
  rw [readNames, readNames, h, h']

/-- What a lister of a file system answers goes by the names that it reads. -/
theorem list_of_readNames {dir : Path} {names : List Name} (h : files.readNames dir = .ok names) :
    files.list dir = .ok ⟨(Name.sort names).map (files.entryAt dir),
      (Name.sort names).filterMap fun name => files.failureAt (dir.child name)⟩ := by
  rw [list, h]

end FileSystem

/-- A drawing examines every entry of what it goes into, and tells the log of
    those that fail. -/
theorem Rendering.WithinLimits.trail {files : FileSystem} {maxLevel : Nat} {root : Path}
    (h : (render files.list maxLevel root .unlimited).WithinLimits) {trail : Trail}
    (htrail : trail ∈ [] :: Lister.drawn files.list maxLevel root) :
    trail.WithinLimits files root maxLevel := by
  intro htried names hread name hname cause hfails
  refine h ((trail.target root).child name) cause ?_
  have hsorted : name ∈ Name.sort names := (Name.sort_perm names).mem_iff.mpr hname
  have hfailure : files.failureAt ((trail.target root).child name) =
      some ((trail.target root).child name, cause) := by
    rw [FileSystem.failureAt, hfails]
  rw [log_eq_reports]
  refine List.mem_append_left _ (List.mem_flatMap.mpr ⟨trail, htrail, ?_⟩)
  rw [Trail.report, show (Cursor.root maxLevel).levelsLeft = maxLevel from rfl, if_pos htried,
    Lister.report, FileSystem.list_of_readNames hread]
  refine List.mem_append_left _ (List.mem_map.mpr ⟨(_, cause), ?_, rfl⟩)
  exact List.mem_filterMap.mpr ⟨name, hsorted, hfailure⟩

/-! ## Trails from two spellings -/

/-- The spots of two listings made from the same names go with each other if
    those of each name do. -/
theorem Spot.forall₂_onward {R : Spot → Spot → Prop} {f g : Name → Entry} {names : List Name}
    (h : ∀ name ∈ names, ∀ a b : Spot, a.entry = f name → b.entry = g name →
      a.isLast = b.isLast → R a b) :
    ∀ passed passed' : List Entry,
      List.Forall₂ R (onward passed (names.map f)) (onward passed' (names.map g)) := by
  induction names with
  | nil => intro _ _; exact .nil
  | cons name rest ih =>
      intro passed passed'
      obtain ⟨hname, hrest⟩ := List.forall_mem_cons.mp h
      have hlast : (rest.map f).isEmpty = (rest.map g).isEmpty := by
        rw [List.isEmpty_map, List.isEmpty_map]
      exact .cons (hname _ _ rfl rfl hlast) (ih hrest _ _)

/-- That two trails, from the spellings `p` and `q` of a root, show the same,
    go by the same names, and end at one place if it is a directory. -/
structure Trail.Alike (files : FileSystem) (p q : Path) (trail trail' : Trail) : Prop where
  looks : trail.looks = trail'.looks
  targets : ∃ names, trail.target p = p.extend names ∧ trail'.target q = q.extend names
  places : trail.isDirectory = true →
    ∃ here, files.resolve (trail.target p) = .ok here ∧ files.resolve (trail'.target q) = .ok here

namespace Trail.Alike

variable {files : FileSystem} {p q : Path} {trail trail' : Trail} {depth : Nat}

theorem isTried_eq (h : Alike files p q trail trail') :
    trail.isTried depth = trail'.isTried depth := by
  rw [isTried, isTried, isDirectory_eq_of_looks h.looks, length_eq_of_looks h.looks]

/-- What is tried at the end of alike trails is one place, and gives the same
    names or the same failure. -/
theorem readNames_eq (h : Alike files p q trail trail') (htried : trail.isTried depth = true) :
    files.readNames (trail.target p) = files.readNames (trail'.target q) := by
  obtain ⟨here, hp, hq⟩ := h.places (Bool.and_eq_true_iff.mp htried).1
  exact FileSystem.readNames_eq_of_resolve hp hq

/-- Nothing is in the way of both, or the same cause. -/
theorem obstacle (h : Alike files p q trail trail') (depth : Nat) :
    (Trail.obstacle files.list p depth trail = none ∧
        Trail.obstacle files.list q depth trail' = none) ∨
      ∃ cause, Trail.obstacle files.list p depth trail = some (.access (trail.target p) cause) ∧
        Trail.obstacle files.list q depth trail' = some (.access (trail'.target q) cause) := by
  rw [Trail.obstacle, Trail.obstacle, ← h.isTried_eq]
  by_cases htried : trail.isTried depth = true
  · rw [if_pos htried, if_pos htried, FileSystem.obstacle_list, FileSystem.obstacle_list,
      h.readNames_eq htried]
    cases files.readNames (trail'.target q) with
    | error cause => exact Or.inr ⟨cause, rfl, rfl⟩
    | ok names => exact Or.inl ⟨rfl, rfl⟩
  · rw [if_neg htried, if_neg htried]
    exact Or.inl ⟨rfl, rfl⟩

/-- Alike trails go on alike by the spots of one name. -/
theorem concat (h : Alike files p q trail trail') (hdir : trail.isDirectory = true) {name : Name}
    (hlimit : files.WithinLimits ((trail.target p).child name))
    (hlimit' : files.WithinLimits ((trail'.target q).child name)) {spot spot' : Spot}
    (hspot : spot.entry = files.entryAt (trail.target p) name)
    (hspot' : spot'.entry = files.entryAt (trail'.target q) name)
    (hlast : spot.isLast = spot'.isLast) :
    Alike files p q (trail ++ [spot]) (trail' ++ [spot']) := by
  obtain ⟨here, hp, hq⟩ := h.places hdir
  have hchild := FileSystem.resolve_child_eq hp hq hlimit hlimit'
  have hkind : spot.entry.isDirectory = spot'.entry.isDirectory := by
    rw [hspot, hspot']
    show decide (files.kindAt _ = _) = decide (files.kindAt _ = _)
    rw [FileSystem.kindAt, FileSystem.kindAt, hchild]
  refine ⟨?_, ?_, fun hspotdir => ?_⟩
  · have hname : spot.entry.name = spot'.entry.name := by rw [hspot, hspot']; rfl
    rw [looks_concat, looks_concat, h.looks, Spot.look, Spot.look, hlast, hname, hkind]
  · obtain ⟨names, hnames, hnames'⟩ := h.targets
    refine ⟨names ++ [name], ?_, ?_⟩
    · rw [target_concat, hspot, Path.extend, List.foldl_concat, ← Path.extend, ← hnames]
      rfl
    · rw [target_concat, hspot', Path.extend, List.foldl_concat, ← Path.extend, ← hnames']
      rfl
  · rw [isDirectory_concat, hspot] at hspotdir
    obtain ⟨place, hplace, -⟩ := FileSystem.resolve_of_isDirectory hspotdir
    rw [target_concat, target_concat, hspot, hspot']
    exact ⟨place, hplace, hchild.symm.trans hplace⟩

/-- What a walk goes into from alike trails is alike. -/
theorem next (h : Alike files p q trail trail')
    (hlimits : trail.WithinLimits files p depth) (hlimits' : trail'.WithinLimits files q depth) :
    List.Forall₂ (Alike files p q) (Lister.next files.list depth p trail)
      (Lister.next files.list depth q trail') := by
  rw [Trail.WithinLimits, ← h.isTried_eq] at hlimits'
  rw [Lister.next, Lister.next, ← h.isTried_eq]
  by_cases htried : trail.isTried depth = true
  · rw [if_pos htried, if_pos htried]
    have hsame := h.readNames_eq htried
    cases hread : files.readNames (trail.target p) with
    | error cause =>
        rw [FileSystem.list, FileSystem.list, ← hsame, hread]
        exact .nil
    | ok names =>
        have hread' := hsame.symm.trans hread
        rw [FileSystem.list_of_readNames hread, FileSystem.list_of_readNames hread']
        refine List.forall₂_map_left_iff.mpr (List.forall₂_map_right_iff.mpr ?_)
        refine Spot.forall₂_onward (fun name hname spot spot' hspot hspot' hlast => ?_) [] []
        have hmem := (Name.sort_perm names).mem_iff.mp hname
        exact h.concat (Bool.and_eq_true_iff.mp htried).1 (hlimits htried names hread name hmem)
          (hlimits' htried names hread' name hmem) hspot hspot' hlast
  · rw [if_neg htried, if_neg htried]
    exact .nil

end Trail.Alike

variable {files : FileSystem} {p q : Path} {here : Place} {maxLevel : Nat}

/-- **IN STEP**: drawings from two spellings of a root pass alike trails. -/
theorem forall₂_alike (hp : files.resolve p = .ok here) (hq : files.resolve q = .ok here)
    (hplimits : (render files.list maxLevel p .unlimited).WithinLimits)
    (hqlimits : (render files.list maxLevel q .unlimited).WithinLimits) :
    List.Forall₂ (Trail.Alike files p q) ([] :: Lister.drawn files.list maxLevel p)
      ([] :: Lister.drawn files.list maxLevel q) := by
  have hroot : Trail.Alike files p q [] [] := ⟨rfl, ⟨[], rfl, rfl⟩, fun _ => ⟨here, hp, hq⟩⟩
  rw [Lister.nil_cons_drawn_eq, Lister.nil_cons_drawn_eq]
  refine forall₂_upTo_flatMap (Lister.onward_eq _ _ _) (Lister.onward_eq _ _ _)
    (.cons hroot .nil) ?_
  intro trail htrail trail' htrail' halike
  rw [← Lister.nil_cons_drawn_eq] at htrail htrail'
  refine ⟨?_, fun _ => ?_⟩
  · rcases halike.obstacle maxLevel with ⟨hnone, hnone'⟩ | ⟨cause, hsome, hsome'⟩
    · rw [hnone, hnone']
    · simp [hsome, hsome']
  · exact halike.next (hplimits.trail htrail) (hqlimits.trail htrail')

/-- **SPELLING**: take two paths of one directory as roots, and suppose that
    neither drawing leaves an entry unexamined for too many links or too
    long a path.  Then both write the same bytes, and both succeed with
    equal counts or fail for the same cause at directories that the same
    names lead to below the root. -/
theorem render_spelling (hp : files.resolve p = .ok here) (hq : files.resolve q = .ok here)
    (hplimits : (render files.list maxLevel p .unlimited).WithinLimits)
    (hqlimits : (render files.list maxLevel q .unlimited).WithinLimits) :
    (render files.list maxLevel p .unlimited).sink.held =
        (render files.list maxLevel q .unlimited).sink.held ∧
      ((∃ stats, (render files.list maxLevel p .unlimited).result = .ok stats ∧
          (render files.list maxLevel q .unlimited).result = .ok stats) ∨
        ∃ names cause,
          (render files.list maxLevel p .unlimited).result = .error (.access (p.extend names) cause) ∧
          (render files.list maxLevel q .unlimited).result =
            .error (.access (q.extend names) cause)) := by
  have halike := forall₂_alike hp hq hplimits hqlimits
  obtain ⟨-, hdrawn⟩ := List.forall₂_cons.mp halike
  refine ⟨?_, ?_⟩
  · rw [held_eq_lines_drawn, held_eq_lines_drawn]
    exact Trail.lines_eq_of_looks (hdrawn.imp fun _ _ h => h.looks)
  · -- only the last trails passed can be those that the drawings stop at
    obtain ⟨before, last, before', last', hsplit, hsplit', hlast⟩ :=
      exists_last_of_forall₂ halike (List.cons_ne_nil _ _)
    rw [(render_eq_course files.list maxLevel p).2, (render_eq_course files.list maxLevel q).2,
      Lister.stop?_eq_of_last hsplit, Lister.stop?_eq_of_last hsplit']
    rcases hlast.obstacle maxLevel with ⟨hnone, hnone'⟩ | ⟨cause, hsome, hsome'⟩
    · rw [hnone, hnone']
      have hstats : (Lister.drawn files.list maxLevel p).foldl Trail.tally .zero =
          (Lister.drawn files.list maxLevel q).foldl Trail.tally .zero :=
        List.rel_foldl (fun stats _ heq _ _ h => heq ▸ Trail.tally_eq_of_looks h.looks stats) rfl
          hdrawn
      exact Or.inl ⟨_, rfl, congrArg Except.ok hstats.symm⟩
    · obtain ⟨names, hnames, hnames'⟩ := hlast.targets
      rw [hsome, hsome', hnames, hnames']
      exact Or.inr ⟨names, cause, rfl, rfl⟩

/-- A directory with a file, a link that dangles and a directory that may not
    be read, and in the current directory an absolute link to it. -/
def linkedTree : FileSystem :=
  ⟨.directory .granted
    [([0x61], .directory .granted
        [([0x78], .file), ([0x79], .link [0x6E]), ([0x7A], .directory ⟨false, true⟩ [])]),
      ([0x68], .directory .granted [([0x6C], .link [0x2F, 0x61])])], [[0x68]], rfl⟩

/-- The directory's absolute path, by way of the directory above it and with
    doubled separators. -/
def roundaboutPath : Path :=
  [0x2F, 0x61, 0x2F, 0x2E, 0x2E, 0x2F, 0x2F, 0x61, 0x2F, 0x2F]

/-- The root is spelled as the link, from the current directory, and in this
    roundabout way from the top. -/
theorem render_spelling_linked :
    (∃ here, linkedTree.resolve [0x6C] = .ok here ∧ linkedTree.resolve roundaboutPath = .ok here) ∧
      (render linkedTree.list 3 [0x6C] .unlimited).WithinLimits ∧
      (render linkedTree.list 3 roundaboutPath .unlimited).WithinLimits ∧
      (render linkedTree.list 3 roundaboutPath .unlimited).sink.held =
        Text.encode "├── x\n├── y\n└── z/\n" ∧
      ∃ names cause,
        (render linkedTree.list 3 [0x6C] .unlimited).result =
          .error (.access (Path.extend [0x6C] names) cause) ∧
        (render linkedTree.list 3 roundaboutPath .unlimited).result =
          .error (.access (roundaboutPath.extend names) cause) := by
  let a : Node := .directory .granted
    [([0x78], .file), ([0x79], .link [0x6E]), ([0x7A], .directory ⟨false, true⟩ [])]
  have hlink : linkedTree.resolve [0x6C] = .ok ⟨a, [([0x61], linkedTree.root)]⟩ := by cbv
  have hround : linkedTree.resolve roundaboutPath = .ok ⟨a, [([0x61], linkedTree.root)]⟩ := by cbv
  have hlinklog : (render linkedTree.list 3 [0x6C] .unlimited).log =
      [.unexamined (Path.child [0x6C] [0x79]) (.system .notFound), .listing [0x6C] 1 3] := by cbv
  have hroundlog : (render linkedTree.list 3 roundaboutPath .unlimited).log =
      [.unexamined (roundaboutPath.child [0x79]) (.system .notFound),
        .listing roundaboutPath 1 3] := by cbv
  have hlinklimits : (render linkedTree.list 3 [0x6C] .unlimited).WithinLimits := by
    simp [Rendering.WithinLimits, hlinklog, Cause.IsLimit]
  have hroundlimits : (render linkedTree.list 3 roundaboutPath .unlimited).WithinLimits := by
    simp [Rendering.WithinLimits, hroundlog, Cause.IsLimit]
  obtain ⟨hheld, hends⟩ := render_spelling hlink hround hlinklimits hroundlimits
  refine ⟨⟨_, hlink, hround⟩, hlinklimits, hroundlimits, hheld.symm.trans (by cbv), ?_⟩
  have hfails : (render linkedTree.list 3 [0x6C] .unlimited).result =
      .error (.access (Path.child [0x6C] [0x7A]) (.system .permissionDenied)) := by cbv
  refine hends.resolve_left ?_
  rintro ⟨stats, hok, -⟩
  cases hfails.symm.trans hok

end TreeSketch
