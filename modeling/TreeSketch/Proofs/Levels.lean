import TreeSketch.Proofs.Course
import TreeSketch.Proofs.Depth

/-! # Drawing fewer levels

    A drawing with a smaller last level is the deeper drawing with the
    lines beyond that level left out, as far as the deeper one comes.  The
    pre-orders are related so (`Lister.within_trails`), and what stands in
    the way of a trail above the smaller last level stands there for both
    (`Trail.obstacle_eq_of_lt`).  So there are three cases: nothing stops
    the deeper drawing, or it is stopped above the smaller last level, or
    at or below it; `render_fewer_levels` has all three.

    That two directories at different depths have different paths is
    counted in separators (`Trail.nesting_target`). -/

namespace TreeSketch

/-- The trails of at most a number of spots. -/
def Trail.within (depth : Nat) (trails : List Trail) : List Trail :=
  trails.filter fun trail => trail.length ≤ depth

@[simp]
theorem Trail.within_append (depth : Nat) (before after : List Trail) :
    within depth (before ++ after) = within depth before ++ within depth after :=
  List.filter_append before after

theorem Trail.within_cons_of_le {depth : Nat} {trail : Trail} (h : trail.length ≤ depth)
    (rest : List Trail) : within depth (trail :: rest) = trail :: within depth rest :=
  List.filter_cons_of_pos (decide_eq_true h)

theorem Trail.within_nil_cons (depth : Nat) (trails : List Trail) :
    within depth ([] :: trails) = [] :: within depth trails := by
  simp [within]

section Stop

variable {list : Lister} {root : Path} {m n : Nat} {trail : Trail}

/-- Above the last level it makes no difference which level is the last. -/
theorem Trail.obstacle_eq_of_lt (hm : trail.length < m) (hmn : m ≤ n) :
    obstacle list root m trail = obstacle list root n trail := by
  have hn : trail.length < n := Nat.lt_of_lt_of_le hm hmn
  simp [obstacle, isTried, hm, hn]

/-- From the last level on nothing is opened. -/
theorem Trail.obstacle_eq_none_of_le (h : m ≤ trail.length) :
    obstacle list root m trail = none := by
  simp [obstacle, isTried, Nat.not_lt.mpr h]

/-- What the deeper drawing has a clear way to, the other has too. -/
theorem Trail.obstacle_eq_none_of_deeper (hmn : m ≤ n) (h : obstacle list root n trail = none) :
    obstacle list root m trail = none := by
  by_cases hlen : trail.length < m
  · rw [obstacle_eq_of_lt hlen hmn, h]
  · exact obstacle_eq_none_of_le (Nat.not_lt.mp hlen)

/-- The shallow pre-order is the deep one without the longer trails. -/
theorem Lister.within_trails (list : Lister) (root : Path) (hmn : m ≤ n) :
    Trail.within m (list.trails n root) = list.trails m root := by
  have hdeep := list.preOrder_trails n root
  refine PreOrder.unique ⟨?_, hdeep.ordered.filter _⟩ (list.preOrder_trails m root)
  intro trail
  rw [Trail.within, List.mem_filter, hdeep.mem_iff, decide_eq_true_eq]
  constructor
  · rintro ⟨⟨hone, -, hdesc⟩, hlen⟩
    exact ⟨hone, hlen, hdesc⟩
  · rintro ⟨hone, hlen, hdesc⟩
    exact ⟨⟨hone, Nat.le_trans hlen hmn, hdesc⟩, hlen⟩

/-- A drawing stops above its last level only. -/
theorem Lister.length_lt_of_stop? {e : Error} (h : list.stop? m root = some (trail, e)) :
    trail.length < m := by
  obtain ⟨hobstacle, -⟩ := stop?_eq_some.mp h
  by_contra hlen
  rw [Trail.obstacle_eq_none_of_le (Nat.not_lt.mp hlen)] at hobstacle
  cases hobstacle

/-- Where nothing stops the deeper drawing, nothing stops the other, and it
    draws the same down to its last level. -/
theorem Lister.within_drawn_of_clear (hmn : m ≤ n) (h : list.stop? n root = none) :
    list.stop? m root = none ∧ Trail.within m (list.drawn n root) = list.drawn m root := by
  obtain ⟨hroot, hclear⟩ := stop?_eq_none_iff_root_below.mp h
  have hshallow : list.stop? m root = none := by
    refine stop?_eq_none_iff_root_below.mpr
      ⟨Trail.obstacle_eq_none_of_deeper hmn hroot, fun trail htrail => ?_⟩
    rw [← within_trails list root hmn] at htrail
    exact Trail.obstacle_eq_none_of_deeper hmn (hclear trail (List.mem_of_mem_filter htrail))
  refine ⟨hshallow, ?_⟩
  rw [drawn_eq_trails hshallow, drawn_eq_trails h, within_trails list root hmn]

/-- Where the deeper drawing is stopped above the smaller last level, the
    other is stopped at the same trail, and draws the same. -/
theorem Lister.within_drawn_of_above {e : Error} (hmn : m ≤ n)
    (h : list.stop? n root = some (trail, e)) (hlen : trail.length < m) :
    list.stop? m root = some (trail, e) ∧
      Trail.within m (list.drawn n root) = list.drawn m root := by
  obtain ⟨htrail, before, after, hsplit, hbefore⟩ := stop?_eq_some.mp h
  have hdeep := nil_cons_drawn_of_blocked hsplit hbefore htrail
  have hle : trail.length ≤ m := Nat.le_of_lt hlen
  have hshallow : [] :: list.trails m root =
      Trail.within m before ++ trail :: Trail.within m after := by
    rw [← within_trails list root hmn, ← Trail.within_nil_cons, hsplit, Trail.within_append,
      Trail.within_cons_of_le hle]
  have hclear : ∀ earlier ∈ Trail.within m before, Trail.obstacle list root m earlier = none :=
    fun earlier hearlier => Trail.obstacle_eq_none_of_deeper hmn
      (hbefore earlier (List.mem_of_mem_filter hearlier))
  have hblocked : Trail.obstacle list root m trail = some e := by
    rw [Trail.obstacle_eq_of_lt hlen hmn, htrail]
  refine ⟨stop?_eq_some.mpr ⟨hblocked, _, _, hshallow, hclear⟩, ?_⟩
  have hdrawn : [] :: Trail.within m (list.drawn n root) = [] :: list.drawn m root := by
    rw [nil_cons_drawn_of_blocked hshallow hclear hblocked, ← Trail.within_nil_cons, hdeep,
      Trail.within_append, Trail.within_cons_of_le hle]
    rfl
  exact List.tail_eq_of_cons_eq hdrawn

/-- Where the deeper drawing is stopped further down, the other goes past
    that trail. -/
theorem Lister.within_drawn_of_below {e : Error} (hmn : m ≤ n)
    (h : list.stop? n root = some (trail, e)) (hlen : m ≤ trail.length) :
    Trail.within m (list.drawn n root) <+: list.drawn m root := by
  obtain ⟨htrail, before, after, hsplit, hbefore⟩ := stop?_eq_some.mp h
  have hdeep := nil_cons_drawn_of_blocked hsplit hbefore htrail
  have hshallow : [] :: list.trails m root =
      Trail.within m (before ++ [trail]) ++ Trail.within m after := by
    rw [← within_trails list root hmn, ← Trail.within_nil_cons, hsplit, ← Trail.within_append,
      List.append_assoc, List.singleton_append]
  -- the trail itself is not opened any more, so nothing stops at it
  have hclear : ∀ earlier ∈ Trail.within m (before ++ [trail]),
      Trail.obstacle list root m earlier = none := by
    intro earlier hearlier
    rcases List.mem_append.mp (List.mem_of_mem_filter hearlier) with hmem | hmem
    · exact Trail.obstacle_eq_none_of_deeper hmn (hbefore earlier hmem)
    · rw [List.mem_singleton.mp hmem]
      exact Trail.obstacle_eq_none_of_le hlen
  have hdrawn : [] :: Trail.within m (list.drawn n root) <+: [] :: list.drawn m root := by
    rw [← upTo_nil_cons, hshallow, upTo_append_of_clear hclear, ← Trail.within_nil_cons, hdeep]
    exact List.prefix_append _ _
  exact (List.prefix_cons_inj _).mp hdrawn

end Stop

/-! ## Depths that paths tell apart -/

namespace Path

/-- The number of separators in a path, one at its end always counted. -/
def nesting (path : Path) : Nat :=
  path.count separator + if path.getLast? = some separator then 0 else 1

/-- Each name adds one. -/
theorem nesting_child {name : Name} (hname : name.IsOrdinary) (dir : Path) :
    (dir.child name).nesting = dir.nesting + 1 := by
  have hnone : name.count separator = 0 := List.count_eq_zero.mpr hname.noSeparator
  rw [nesting, if_neg (getLast?_child_ne hname dir), nesting, child]
  by_cases hdir : dir.getLast? = some separator
  · rw [if_pos hdir, if_pos hdir, List.count_append, hnone]
  · rw [if_neg hdir, if_neg hdir, List.count_append, List.count_cons_self, hnone]

end Path

/-- So the path at the end of a trail tells its length. -/
theorem Trail.nesting_target {files : FileSystem} (hnames : files.root.Named Name.IsOrdinary)
    {dir : Path} {trail : Trail} (h : Descends files.list dir trail) :
    (target dir trail).nesting = dir.nesting + trail.length := by
  induction h with
  | stay dir => rfl
  | @enter dir spot rest hlists _ _ ih =>
      obtain ⟨names, hread, name, hname, heq⟩ := Spot.exists_name hlists
      have hchild : spot.entry.path.nesting = dir.nesting + 1 := by
        rw [heq]
        exact Path.nesting_child (FileSystem.readNames_named hnames hread name hname) dir
      rw [target_cons, ih, hchild, List.length_cons]
      omega

/-- **FEWER LEVELS**: let `m ≤ n`.  The trails drawn down to level `n`, as
    far as they are at most `m` long, are a beginning of those drawn down to
    level `m`, and a trail's line is a function of the trail.  If the deep
    drawing succeeds, so does the shallow one, and the two are equal.  If
    the deep one is stopped above level `m`, the shallow one fails with the
    same error, and again they are equal.  If it is stopped at or below
    level `m`, the shallow one never fails on that directory. -/
theorem render_fewer_levels {m n : Nat} (hmn : m ≤ n) (files : FileSystem) (root : Path) :
    (∀ maxLevel, (render files.list maxLevel root .unlimited).sink.held =
      Trail.lines (Lister.drawn files.list maxLevel root)) ∧
    Trail.within m (Lister.drawn files.list n root) <+: Lister.drawn files.list m root ∧
    ((∃ stats, (render files.list n root .unlimited).result = .ok stats) →
      (∃ stats, (render files.list m root .unlimited).result = .ok stats) ∧
        Trail.within m (Lister.drawn files.list n root) = Lister.drawn files.list m root) ∧
    ∀ e, (render files.list n root .unlimited).result = .error e →
      ∃ trail cause, Lister.stop? files.list n root = some (trail, e) ∧
        e = .access (trail.target root) cause ∧
        (trail.length < m →
          (render files.list m root .unlimited).result = .error e ∧
            Trail.within m (Lister.drawn files.list n root) =
              Lister.drawn files.list m root) ∧
        (m ≤ trail.length →
          (∀ e', Lister.stop? files.list m root ≠ some (trail, e')) ∧
            (files.root.Named Name.IsOrdinary → ∀ cause',
              (render files.list m root .unlimited).result ≠
                .error (.access (trail.target root) cause'))) := by
  refine ⟨fun _ => held_eq_lines_drawn, ?_, ?_, ?_⟩
  · cases hstop : Lister.stop? files.list n root with
    | none => rw [(Lister.within_drawn_of_clear hmn hstop).2]
    | some stop =>
        by_cases hlen : stop.1.length < m
        · rw [(Lister.within_drawn_of_above hmn hstop hlen).2]
        · exact Lister.within_drawn_of_below hmn hstop (Nat.not_lt.mp hlen)
  · intro hok
    obtain ⟨hclear, hdrawn⟩ := Lister.within_drawn_of_clear hmn (result_isOk_iff.mp hok)
    exact ⟨result_isOk_iff.mpr hclear, hdrawn⟩
  · intro e he
    obtain ⟨trail, hstop⟩ := result_eq_error_iff.mp he
    obtain ⟨cause, heq, -⟩ := FileSystem.access_of_stop? hstop
    refine ⟨trail, cause, hstop, heq, ?_, ?_⟩
    · intro hlen
      obtain ⟨hshallow, hdrawn⟩ := Lister.within_drawn_of_above hmn hstop hlen
      exact ⟨result_eq_error_iff.mpr ⟨trail, hshallow⟩, hdrawn⟩
    · intro hlen
      refine ⟨fun e' hshallow => ?_, fun hnames cause' hshallow => ?_⟩
      · have := Lister.length_lt_of_stop? hshallow
        omega
      · -- the trail that stops the shallow drawing is shorter, so its path is another
        obtain ⟨other, hother⟩ := result_eq_error_iff.mp hshallow
        obtain ⟨cause'', hpath, -⟩ := FileSystem.access_of_stop? hother
        obtain ⟨htarget, -⟩ := Error.access.inj hpath
        have hshort := Lister.length_lt_of_stop? hother
        have hdeep := Trail.nesting_target hnames (Lister.descends_of_stop? hstop)
        have hflat := Trail.nesting_target hnames (Lister.descends_of_stop? hother)
        rw [htarget] at hdeep
        omega

/-- A directory that cannot be read two levels down, and one after it that
    cannot be read on the first level. -/
def twiceLockedTree : FileSystem :=
  ⟨.directory .granted
    [([0x61], .directory .granted [([0x62], .directory ⟨false, true⟩ [])]),
      ([0x6B], .directory ⟨false, true⟩ [])], [], rfl⟩

theorem render_fewer_levels_twiceLocked :
    2 ≤ 3 ∧
      (render twiceLockedTree.list 3 [0x2E] .unlimited).result =
        .error (.access [0x2E, 0x2F, 0x61, 0x2F, 0x62] (.system .permissionDenied)) ∧
      (Lister.drawn twiceLockedTree.list 3 [0x2E]).map Trail.line =
        ["├── a/\n", "│   └── b/\n"] ∧
      (Lister.drawn twiceLockedTree.list 2 [0x2E]).map Trail.line =
        ["├── a/\n", "│   └── b/\n", "└── k/\n"] ∧
      Trail.within 2 (Lister.drawn twiceLockedTree.list 3 [0x2E]) <+:
        Lister.drawn twiceLockedTree.list 2 [0x2E] ∧
      ∀ cause, (render twiceLockedTree.list 2 [0x2E] .unlimited).result ≠
        .error (.access [0x2E, 0x2F, 0x61, 0x2F, 0x62] cause) := by
  have hmn : 2 ≤ 3 := by decide
  have hdeep : (render twiceLockedTree.list 3 [0x2E] .unlimited).result =
      .error (.access [0x2E, 0x2F, 0x61, 0x2F, 0x62] (.system .permissionDenied)) := by cbv
  have hnames : twiceLockedTree.root.Named Name.IsOrdinary := by
    simp only [twiceLockedTree, Node.named_iff_throughout, Node.throughout_directory,
      List.forall_mem_cons, List.not_mem_nil, false_imp_iff, implies_true, and_true]
    decide
  obtain ⟨-, hbeginning, -, hfails⟩ := render_fewer_levels hmn twiceLockedTree [0x2E]
  obtain ⟨trail, cause, hstop, heq, -, hbelow⟩ := hfails _ hdeep
  obtain ⟨htarget, -⟩ := Error.access.inj heq
  have hlen : 2 ≤ trail.length := by
    have hstop' : (Lister.stop? twiceLockedTree.list 3 [0x2E]).map (fun stop => stop.1.length) =
        some 2 := by cbv
    rw [hstop] at hstop'
    exact Nat.le_of_eq (Option.some.inj hstop').symm
  refine ⟨hmn, hdeep, by cbv, by cbv, hbeginning, ?_⟩
  rw [htarget]
  exact (hbelow hlen).2 hnames

end TreeSketch
