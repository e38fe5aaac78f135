import TreeSketch.Proofs.Passage

/-! # What a drawing holds, complete or cut short

    With a sink that takes everything, a drawing is the lines of its
    pre-order, one after another, and nothing else.  It needs no file system
    for that: whatever lists the directories, a drawing with nothing in its
    way passes every trail (`render_of_clear`), and another one ends with
    the first trail that something stands in the way of
    (`render_of_blocked`).  For file systems:

    * `render_ok_holds_preOrder`: a drawing that succeeds holds the line of
      every trail, and counts each trail's last entry.
    * `render_holds_up_to_blocked`: against the *lenient* drawing, in which
      a directory that cannot be listed has no entries, a drawing succeeds
      with the same bytes, or holds what the lenient one holds up to and
      including the line of the first directory that cannot be listed, and
      reports that directory. -/

namespace TreeSketch

namespace Trail

theorem tally_of_ne_nil {trail : Trail} (h : trail ≠ []) (stats : Stats) :
    tally stats trail = stats.count (isDirectory trail) := by
  rw [tally, isDirectory, List.getLast?_eq_some_getLast h]

/-- Trails passed count their last entries, directories and others. -/
theorem foldl_tally {trails : List Trail} :
    (∀ trail ∈ trails, trail ≠ []) → ∀ stats : Stats,
      trails.foldl tally stats =
        ⟨stats.directories + trails.countP fun trail => isDirectory trail,
          stats.files + trails.countP fun trail => !isDirectory trail⟩ := by
  induction trails with
  | nil => intro _ stats; rfl
  | cons trail rest ih =>
      intro hne stats
      obtain ⟨htrail, hrest⟩ := List.forall_mem_cons.mp hne
      rw [List.foldl_cons, ih hrest, tally_of_ne_nil htrail, List.countP_cons, List.countP_cons]
      cases isDirectory trail with
      | true =>
          show Stats.mk (stats.directories + 1 + _) (stats.files + _) = _
          rw [Nat.add_assoc, Nat.add_comm 1]
          rfl
      | false =>
          show Stats.mk (stats.directories + _) (stats.files + 1 + _) = _
          rw [Nat.add_assoc, Nat.add_comm 1]
          rfl

/-- What stands in the way of a trail is told by no event. -/
theorem report_of_obstacle {list : Lister} {dir : Path} {cursor : Cursor} {trail : Trail}
    {e : Error} (h : obstacle list dir cursor.levelsLeft trail = some e) :
    report list dir cursor trail = [] := by
  rw [report]
  split
  · next htried =>
    rw [obstacle, if_pos htried, Lister.obstacle] at h
    rw [Lister.report]
    cases hlist : list (target dir trail) with
    | error e' => rfl
    | ok listing => rw [hlist] at h; cases h
  · rfl

end Trail

/-- The directory that an event says was listed. -/
def Event.listed? : Event → Option Path
  | .listing dir _ _ => some dir
  | _ => none

/-- The directories that a drawing has tried to list, in order: those it
    told the log of, then the one it could not list. -/
def Rendering.listed (rendering : Rendering Sink) : List Path :=
  rendering.log.filterMap Event.listed? ++
    match rendering.result with
    | .error (.access path _) => [path]
    | _ => []

/-- The report of a directory that can be listed names that directory. -/
theorem Lister.listed_report {list : Lister} {dir : Path} (h : list.obstacle dir = none)
    (level : Nat) : (list.report dir level).filterMap Event.listed? = [dir] := by
  rw [report]
  cases hlist : list dir with
  | error e =>
      rw [obstacle, hlist] at h
      cases h
  | ok listing =>
      show (listing.unexamined.map _ ++ [Event.listing dir level listing.entries.length]).filterMap
        Event.listed? = [Event.listing dir level listing.entries.length].filterMap Event.listed?
      -- an entry passed over is told of by its path, not as a directory
      rw [List.filterMap_append, List.append_left_eq_self, List.filterMap_map]
      exact List.filterMap_eq_nil_iff.mpr fun _ _ => rfl

/-- Trails passed with nothing in the way report each directory tried. -/
theorem Trail.listed_report {list : Lister} {dir : Path} {cursor : Cursor} {trails : List Trail} :
    (∀ trail ∈ trails, Trail.obstacle list dir cursor.levelsLeft trail = none) →
      (trails.flatMap (Trail.report list dir cursor)).filterMap Event.listed? =
        (trails.filter (Trail.isTried cursor.levelsLeft)).map (Trail.target dir) := by
  induction trails with
  | nil => intro _; rfl
  | cons trail rest ih =>
      intro hclear
      obtain ⟨htrail, hrest⟩ := List.forall_mem_cons.mp hclear
      rw [List.flatMap_cons, List.filterMap_append, ih hrest, Trail.report]
      by_cases htried : trail.isTried cursor.levelsLeft = true
      · rw [Trail.obstacle, if_pos htried] at htrail
        rw [if_pos htried, Lister.listed_report htrail, List.filter_cons_of_pos htried]
        rfl
      · rw [if_neg htried, List.filter_cons_of_neg htried]
        rfl

/-! ## Whatever lists the directories -/

section Lister

variable {list : Lister} {maxLevel : Nat} {root : Path}

theorem Lister.foldl_tally_trails (list : Lister) (maxLevel : Nat) (root : Path) :
    (list.trails maxLevel root).foldl Trail.tally .zero =
      ⟨(list.trails maxLevel root).countP fun trail => trail.isDirectory,
        (list.trails maxLevel root).countP fun trail => !trail.isDirectory⟩ := by
  rw [Trail.foldl_tally fun _ => ne_nil_of_mem_trails]
  simp [Stats.zero]

/-- **CLEAR**: with nothing in its way a drawing succeeds, and has drawn and
    counted every trail. -/
theorem render_of_clear (h : ∀ trail ∈ [] :: list.trails maxLevel root,
      Trail.obstacle list root maxLevel trail = none) :
    (render list maxLevel root .unlimited).result =
        .ok ((list.trails maxLevel root).foldl Trail.tally .zero) ∧
      (render list maxLevel root .unlimited).sink.held =
        Trail.lines (list.trails maxLevel root) := by
  rw [render_unlimited (Walk.hasEffect_drawTree_of_clear h)]
  refine ⟨rfl, ?_⟩
  rw [Sink.held_push, Walk.bytes_passage_root]
  rfl

/-- **BLOCKED**: a drawing fails with what stands in the way of the first
    trail; it has drawn the trails up to that one and listed the directories
    before it. -/
theorem render_of_blocked {before after : List Trail} {trail : Trail} {e : Error}
    (hsplit : [] :: list.trails maxLevel root = before ++ trail :: after)
    (hbefore : ∀ earlier ∈ before, Trail.obstacle list root maxLevel earlier = none)
    (htrail : Trail.obstacle list root maxLevel trail = some e) :
    (render list maxLevel root .unlimited).result = .error e ∧
      (render list maxLevel root .unlimited).sink.held = Trail.lines (before ++ [trail]) ∧
      (render list maxLevel root .unlimited).log.filterMap Event.listed? =
        (before.filter (Trail.isTried maxLevel)).map (Trail.target root) := by
  rw [render_unlimited (Walk.hasEffect_drawTree_of_blocked hsplit hbefore htrail)]
  refine ⟨rfl, ?_, ?_⟩
  · rw [Sink.held_push, Walk.bytes_passage_root]
    rfl
  · have hreport : Trail.report list root (.root maxLevel) trail = [] :=
      Trail.report_of_obstacle htrail
    show ((before ++ [trail]).flatMap (Trail.report list root (.root maxLevel))).filterMap
      Event.listed? = _
    rw [List.flatMap_append, List.flatMap_singleton, hreport, List.append_nil,
      Trail.listed_report hbefore]
    rfl

/-- A drawing that succeeds had nothing in its way. -/
theorem clear_of_result_ok {stats : Stats}
    (h : (render list maxLevel root .unlimited).result = .ok stats) :
    ∀ trail ∈ [] :: list.trails maxLevel root, Trail.obstacle list root maxLevel trail = none := by
  rcases Trail.clear_or_blocked list root maxLevel ([] :: list.trails maxLevel root) with
    hclear | ⟨before, trail, after, e, hsplit, hbefore, htrail⟩
  · exact hclear
  · cases h.symm.trans (render_of_blocked hsplit hbefore htrail).1

/-- So it holds the lines of its pre-order, of which there is one only. -/
theorem holds_preOrder_of_result_ok {stats : Stats}
    (h : (render list maxLevel root .unlimited).result = .ok stats) {trails : List Trail}
    (htrails : PreOrder list maxLevel root trails) :
    (render list maxLevel root .unlimited).sink.held = Trail.lines trails ∧
      stats.directories = trails.countP (fun trail => trail.isDirectory) ∧
      stats.files = trails.countP (fun trail => !trail.isDirectory) := by
  obtain rfl := htrails.unique (Lister.preOrder_trails list maxLevel root)
  obtain ⟨hresult, hheld⟩ := render_of_clear (clear_of_result_ok h)
  rw [Lister.foldl_tally_trails] at hresult
  obtain rfl := Except.ok.inj (h.symm.trans hresult)
  exact ⟨hheld, rfl, rfl⟩

end Lister

/-! ## Complete -/

/-- **THE CLOSED FORM**: a drawing that succeeds holds exactly the lines of
    the trails from the root down to the last level, in pre-order, and
    counts the trails that end at a directory and those that do not. -/
theorem render_ok_holds_preOrder {files : FileSystem} {maxLevel : Nat} {root : Path}
    {stats : Stats} (h : (render files.list maxLevel root .unlimited).result = .ok stats) :
    (∃ trails, PreOrder files.list maxLevel root trails) ∧
      ∀ trails, PreOrder files.list maxLevel root trails →
        (render files.list maxLevel root .unlimited).sink.held =
            Trail.lines trails ∧
          stats.directories = trails.countP (fun trail => trail.isDirectory) ∧
          stats.files = trails.countP (fun trail => !trail.isDirectory) :=
  ⟨⟨_, Lister.preOrder_trails files.list maxLevel root⟩, fun _ => holds_preOrder_of_result_ok h⟩

/-- A small tree: a directory with a file, a link to it, and a file that
    stands between them. -/
def sampleTree : FileSystem :=
  ⟨.directory .granted
    [([0x73], .directory .granted [([0x63], .file)]), ([0x6D], .file), ([0x61], .link [0x73])],
    [], rfl⟩

theorem render_ok_holds_preOrder_sample :
    (render sampleTree.list 2 [0x2E] .unlimited).result = .ok ⟨2, 3⟩ ∧
      (∃ trails, PreOrder sampleTree.list 2 [0x2E] trails) ∧
      ∀ trails, PreOrder sampleTree.list 2 [0x2E] trails →
        (render sampleTree.list 2 [0x2E] .unlimited).sink.held =
            Trail.lines trails ∧
          2 = trails.countP (fun trail => trail.isDirectory) ∧
          3 = trails.countP (fun trail => !trail.isDirectory) := by
  have h : (render sampleTree.list 2 [0x2E] .unlimited).result = .ok ⟨2, 3⟩ := by cbv
  exact ⟨h, render_ok_holds_preOrder h⟩

/-! ## Cut short -/

/-- A lister for which a directory that cannot be listed has no entries. -/
def Lister.lenient (list : Lister) : Lister := fun dir =>
  match list dir with
  | .error _ => .ok ⟨[], []⟩
  | .ok listing => .ok listing

theorem Lister.trails_lenient (list : Lister) {depth : Nat} :
    ∀ dir, list.lenient.trails depth dir = list.trails depth dir := by
  induction depth with
  | zero => intro _; rfl
  | succ depth ih =>
      intro dir
      cases hlist : list dir with
      | error e =>
          have hlenient : list.lenient dir = .ok ⟨[], []⟩ := by rw [lenient, hlist]
          rw [trails_of_error hlist, trails_of_ok hlenient]
          rfl
      | ok listing =>
          have hlenient : list.lenient dir = .ok listing := by rw [lenient, hlist]
          rw [trails_of_ok hlist, trails_of_ok hlenient, funext ih]

theorem Lister.obstacle_lenient (list : Lister) (dir : Path) : list.lenient.obstacle dir = none := by
  rw [obstacle, lenient]
  cases list dir with
  | error e => rfl
  | ok listing => rfl

/-- A directory of a file system is in the way exactly if its names cannot
    be read, and then by its path and the cause. -/
theorem FileSystem.obstacle_list (files : FileSystem) (dir : Path) :
    Lister.obstacle files.list dir =
      match files.readNames dir with
      | .error cause => some (.access dir cause)
      | .ok _ => none := by
  rw [Lister.obstacle, FileSystem.list]
  cases files.readNames dir with
  | error cause => rfl
  | ok names => rfl

/-- A file system puts nothing in the way of a trail if the directory it
    ends at can be read, in case it is tried. -/
theorem Trail.obstacle_list_of_readable {files : FileSystem} {root : Path} {depth : Nat}
    {trail : Trail} (h : trail.isTried depth = true →
      ∃ names, files.readNames (trail.target root) = .ok names) :
    Trail.obstacle files.list root depth trail = none := by
  rw [Trail.obstacle]
  by_cases htried : trail.isTried depth = true
  · obtain ⟨names, hnames⟩ := h htried
    rw [if_pos htried, FileSystem.obstacle_list, hnames]
  · rw [if_neg htried]

/-- The drawing that passes by what cannot be listed holds every line. -/
theorem render_lenient (list : Lister) (maxLevel : Nat) (root : Path) :
    (∃ stats, (render list.lenient maxLevel root .unlimited).result = .ok stats) ∧
      (render list.lenient maxLevel root .unlimited).sink.held =
        Trail.lines ([] :: list.trails maxLevel root) := by
  have hclear : ∀ trail ∈ [] :: list.lenient.trails maxLevel root,
      Trail.obstacle list.lenient root maxLevel trail = none := by
    intro trail _
    rw [Trail.obstacle, Lister.obstacle_lenient, ite_self]
  obtain ⟨hresult, hheld⟩ := render_of_clear hclear
  rw [Lister.trails_lenient] at hheld
  exact ⟨⟨_, hresult⟩, hheld⟩

/-- **CUT SHORT**: let the lenient drawing be the one in which a directory
    that cannot be listed has no entries.  If every directory that it tries
    can be read, the drawing succeeds and holds the same.  Otherwise it
    reports the first that cannot, with its path and the cause; it holds
    what the lenient one holds up to and including that directory's own
    line, which for the root is nothing; and it has tried no directory
    after it. -/
theorem render_holds_up_to_blocked (files : FileSystem) (maxLevel : Nat) (root : Path) :
    ∃ trails, PreOrder files.list maxLevel root trails ∧
      (∃ stats, (render (Lister.lenient files.list) maxLevel root .unlimited).result = .ok stats) ∧
      (render (Lister.lenient files.list) maxLevel root .unlimited).sink.held =
        Trail.lines ([] :: trails) ∧
      ((∀ trail ∈ [] :: trails, Trail.isTried maxLevel trail = true →
          ∃ names, files.readNames (Trail.target root trail) = .ok names) →
        (∃ stats, (render files.list maxLevel root .unlimited).result = .ok stats) ∧
          (render files.list maxLevel root .unlimited).sink.held =
            (render (Lister.lenient files.list) maxLevel root .unlimited).sink.held) ∧
      ∀ before trail after cause, [] :: trails = before ++ trail :: after →
        (∀ earlier ∈ before, Trail.isTried maxLevel earlier = true →
          ∃ names, files.readNames (Trail.target root earlier) = .ok names) →
        Trail.isTried maxLevel trail = true →
        files.readNames (Trail.target root trail) = .error cause →
        (render files.list maxLevel root .unlimited).result =
            .error (.access (Trail.target root trail) cause) ∧
          (render files.list maxLevel root .unlimited).sink.held =
            Trail.lines (before ++ [trail]) ∧
          (render files.list maxLevel root .unlimited).listed =
            ((before ++ [trail]).filter (Trail.isTried maxLevel)).map (Trail.target root) := by
  obtain ⟨hlenient, hheld⟩ := render_lenient files.list maxLevel root
  refine ⟨_, Lister.preOrder_trails files.list maxLevel root, hlenient, hheld, ?_, ?_⟩
  · intro hreadable
    have hclear : ∀ trail ∈ [] :: Lister.trails files.list maxLevel root,
        Trail.obstacle files.list root maxLevel trail = none := fun trail htrail =>
      Trail.obstacle_list_of_readable (hreadable trail htrail)
    obtain ⟨hresult, hall⟩ := render_of_clear hclear
    exact ⟨⟨_, hresult⟩, hall.trans hheld.symm⟩
  · intro before trail after cause hsplit hreadable htried hcause
    have hbefore : ∀ earlier ∈ before, Trail.obstacle files.list root maxLevel earlier = none :=
      fun earlier hearlier => Trail.obstacle_list_of_readable (hreadable earlier hearlier)
    have htrail : Trail.obstacle files.list root maxLevel trail =
        some (.access (Trail.target root trail) cause) := by
      rw [Trail.obstacle, if_pos htried, FileSystem.obstacle_list, hcause]
    obtain ⟨hresult, hlines, hlisted⟩ := render_of_blocked hsplit hbefore htrail
    refine ⟨hresult, hlines, ?_⟩
    rw [Rendering.listed, hlisted, hresult, List.filter_append, List.map_append,
      List.filter_cons_of_pos htried]
    rfl

/-- A file, then two directories that cannot be read. -/
def lockedTree : FileSystem :=
  ⟨.directory .granted
    [([0x61], .file), ([0x6B], .directory ⟨false, true⟩ [([0x78], .file)]),
      ([0x7A], .directory ⟨false, true⟩ [])], [], rfl⟩

theorem render_holds_up_to_blocked_locked :
    (render lockedTree.list 2 [0x2E] .unlimited).result =
        .error (.access [0x2E, 0x2F, 0x6B] (.system .permissionDenied)) ∧
      (render lockedTree.list 2 [0x2E] .unlimited).sink.held =
        Text.encode "├── a\n├── k/\n" ∧
      (render lockedTree.list 2 [0x2E] .unlimited).listed =
        [[0x2E], [0x2E, 0x2F, 0x6B]] := by
  obtain ⟨trails, horder, -, -, -, hblocked⟩ := render_holds_up_to_blocked lockedTree 2 [0x2E]
  obtain rfl := horder.unique (Lister.preOrder_trails _ _ _)
  let a : Entry := ⟨"a", [0x2E, 0x2F, 0x61], .file⟩
  let k : Entry := ⟨"k", [0x2E, 0x2F, 0x6B], .directory⟩
  let z : Entry := ⟨"z", [0x2E, 0x2F, 0x7A], .directory⟩
  have hsplit : [] :: Lister.trails lockedTree.list 2 [0x2E] =
      [[], [⟨[], a, [k, z]⟩]] ++ [⟨[a], k, [z]⟩] :: [[⟨[a, k], z, []⟩]] := by cbv
  have hearlier : ∀ earlier ∈ ([[], [⟨[], a, [k, z]⟩]] : List Trail),
      Trail.isTried 2 earlier = true →
      ∃ names, lockedTree.readNames (Trail.target [0x2E] earlier) = .ok names := by
    intro earlier hearlier htried
    rcases List.mem_cons.mp hearlier with rfl | hearlier
    · exact ⟨[[0x61], [0x6B], [0x7A]], by cbv⟩
    · rw [List.mem_singleton.mp hearlier] at htried
      exact absurd htried (by decide)
  have h := hblocked _ _ _ (.system .permissionDenied) hsplit hearlier rfl (by cbv)
  refine ⟨h.1, h.2.1.trans (by cbv), h.2.2.trans (by cbv)⟩

end TreeSketch
