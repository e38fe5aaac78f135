import TreeSketch.Proofs.Contents
import TreeSketch.Proofs.Links

/-! # The error and the last line

    A drawing that is stopped below the root stops right after the line of
    the directory that it could not list.  The error has that directory's
    path, and the path was put together on the way down: so it spells the
    names on the trail of the last line (`Trail.Follows.target_eq`,
    `Path.extend_eq_intercalate`).  What the error says is decoded from the
    whole path at once, what was drawn from each name alone; both come to the
    same, since decoding splits at separators
    (`Text.decodeLossy_intercalate`).

    `render_error_names_last` says so of whole drawings. -/

namespace TreeSketch

/-! ## The text of a path -/

/-- Names joined by separators are shown as what is shown for each. -/
theorem Text.decodeLossy_intercalate (names : List Name) :
    decodeLossy ([Path.separator].intercalate names) =
      "/".intercalate (names.map decodeLossy) := by
  induction names with
  | nil => rfl
  | cons name rest ih =>
      cases rest with
      | nil => rw [List.intercalate_singleton, List.map_singleton, String.intercalate_singleton]
      | cons next more =>
          rw [List.intercalate_cons_cons, List.append_assoc, List.singleton_append,
            decodeLossy_append_separator, ih]
          simp only [List.map_cons, String.intercalate_cons_cons]

namespace Path

/-- A path is shown as what is shown for its directory, the joint and the
    rest. -/
theorem shown_append_joint (dir rest : Path) :
    shown (dir ++ dir.joint ++ rest) = shown dir ++ shown dir.joint ++ shown rest := by
  rw [joint]
  by_cases hlast : dir.getLast? = some separator
  · -- the separator that the path ends in is the one to split at
    obtain ⟨start, rfl⟩ := List.getLast?_eq_some_iff.mp hlast
    have hstart := Text.decodeLossy_append_separator start []
    have hrest := Text.decodeLossy_append_separator start rest
    rw [show Text.decodeLossy [] = "" from rfl, String.append_empty] at hstart
    rw [if_pos hlast, List.append_nil, List.append_assoc, List.singleton_append, shown, shown,
      shown, shown, hrest, hstart, show Text.decodeLossy [] = "" from rfl, String.append_empty]
  · rw [if_neg hlast, List.append_assoc, List.singleton_append]
    exact Text.decodeLossy_append_separator dir rest

/-- **THE PATH OF A DESCENT**: the directory's path, the joint, and the names
    joined by separators. -/
theorem extend_eq_intercalate {names : List Name} (hne : names ≠ []) :
    ∀ {dir : Path}, (∀ name ∈ names, name.IsOrdinary) →
      dir.extend names = dir ++ dir.joint ++ [separator].intercalate names := by
  induction names with
  | nil => exact absurd rfl hne
  | cons name rest ih =>
      intro dir hnames
      obtain ⟨hname, hrest⟩ := List.forall_mem_cons.mp hnames
      show (dir.child name).extend rest = _
      cases rest with
      | nil =>
          rw [List.intercalate_singleton]
          exact child_eq_joint dir name
      | cons next more =>
          have hjoint : (dir.child name).joint = [separator] := if_neg (getLast?_child_ne hname dir)
          rw [ih (List.cons_ne_nil _ _) hrest, hjoint, child_eq_joint, List.intercalate_cons_cons]
          simp only [List.append_assoc]

end Path

/-! ## Names along a trail -/

/-- That raw names lead along a trail from `dir`: each is stored in the
    directory that those before it lead to, and its entry there is the
    spot's. -/
inductive Trail.Follows (files : FileSystem) : Path → List Name → Trail → Prop where
  | stay (dir : Path) : Follows files dir [] []
  | enter {dir : Path} {raw : Name} {names stored : List Name} {spot : Spot} {rest : Trail}
      (hread : files.readNames dir = .ok stored) (hraw : raw ∈ stored)
      (hentry : Entry.IsOf files dir raw spot.entry)
      (hrest : Follows files spot.entry.path names rest) :
      Follows files dir (raw :: names) (spot :: rest)

namespace Trail

variable {files : FileSystem} {dir : Path} {names : List Name} {trail : Trail}

/-- Every trail is led along by names. -/
theorem exists_follows (h : Descends files.list dir trail) : ∃ names, Follows files dir names trail := by
  induction h with
  | stay dir => exact ⟨[], .stay dir⟩
  | @enter dir spot rest hlists _ _ ih =>
      obtain ⟨names, hrest⟩ := ih
      obtain ⟨stored, hread, raw, hraw, heq⟩ := Spot.exists_name hlists
      refine ⟨raw :: names, .enter hread hraw ?_ hrest⟩
      rw [heq]
      exact files.isOf_entryAt dir raw

namespace Follows

theorem names_eq (h : Follows files dir names trail) :
    (trail.map fun spot => spot.entry.name) = names.map Text.decodeLossy := by
  induction h with
  | stay dir => rfl
  | enter _ _ hentry _ ih => rw [List.map_cons, List.map_cons, ih, hentry.name]

/-- The path at the end of a trail is the one that the names descend to. -/
theorem target_eq (h : Follows files dir names trail) : target dir trail = dir.extend names := by
  induction h with
  | stay dir => rfl
  | @enter dir raw names _ spot rest _ _ hentry _ ih =>
      have hpath : spot.entry.path = dir.child raw :=
        hentry.path.trans (Path.child_eq_joint dir raw).symm
      rw [target_cons, ih, hpath]
      rfl

theorem isOrdinary (hnames : files.root.Named Name.IsOrdinary) (h : Follows files dir names trail) :
    ∀ name ∈ names, name.IsOrdinary := by
  induction h with
  | stay dir => exact List.forall_mem_nil _
  | enter hread hraw _ _ ih =>
      exact List.forall_mem_cons.mpr ⟨FileSystem.readNames_named hnames hread _ hraw, ih⟩

end Follows

/-- What goes down to a trail's end goes down to everything on the way. -/
theorem descends_of_append {list : Lister} {above below : Trail}
    (h : Descends list dir (above ++ below)) : Descends list dir above := by
  induction below using List.reverseRecOn with
  | nil => rwa [List.append_nil] at h
  | append_singleton before last ih =>
      rw [← List.append_assoc] at h
      exact ih (descends_concat.mp h).1

end Trail

/-- Whatever is on the way to an entry that is drawn is drawn before it. -/
theorem Lister.mem_drawn_of_append {list : Lister} {depth : Nat} {dir : Path} {above below : Trail}
    (h : above ++ below ∈ list.drawn depth dir) (hne : above ≠ []) : above ∈ list.drawn depth dir := by
  obtain ⟨rest, hsplit⟩ := list.drawn_prefix_trails
  obtain ⟨-, hlen, hdesc⟩ := mem_trails.mp (drawn_prefix_trails.subset h)
  rw [List.length_append] at hlen
  have hmem : above ∈ list.trails depth dir :=
    mem_trails.mpr ⟨List.length_pos_iff.mpr hne, by omega, Trail.descends_of_append hdesc⟩
  have hordered := list.trails_ordered depth dir
  rw [← hsplit] at hmem hordered
  rcases List.mem_append.mp hmem with hdrawn | hlater
  · exact hdrawn
  · -- a trail that it begins cannot stand after it
    have hlt := (List.pairwise_append.mp hordered).2.2 _ h _ hlater
    have hle := ((List.prefix_append above below).map Spot.position).le
    exact absurd hlt (List.not_lt.mpr hle)

/-- A drawing that is stopped below the root ends with the trail that stops
    it, which ends at a directory. -/
theorem Lister.exists_drawn_of_stop? {list : Lister} {depth : Nat} {dir : Path} {trail : Trail}
    {e : Error} (h : list.stop? depth dir = some (trail, e)) (hne : trail ≠ []) :
    (∃ earlier, list.drawn depth dir = earlier ++ [trail]) ∧ trail.isDirectory = true := by
  obtain ⟨hobstacle, before, after, hsplit, hbefore⟩ := stop?_eq_some.mp h
  have hdrawn := nil_cons_drawn_of_blocked hsplit hbefore hobstacle
  refine ⟨?_, (Bool.and_eq_true_iff.mp (Trail.isTried_of_obstacle hobstacle)).1⟩
  cases before with
  | nil => exact absurd (List.cons.inj hdrawn).1.symm hne
  | cons first earlier => exact ⟨earlier, (List.cons.inj hdrawn).2⟩

/-- On the way to where a drawing is stopped each entry is drawn, and as a
    directory. -/
theorem Lister.drawn_of_stop? {list : Lister} {depth : Nat} {dir : Path} {above below : Trail}
    {spot : Spot} {e : Error} (h : list.stop? depth dir = some (above ++ [spot] ++ below, e)) :
    above ++ [spot] ∈ list.drawn depth dir ∧
      Trail.line (above ++ [spot]) =
        Trail.indent above ++ spot.mark ++ spot.entry.name ++ "/\n" := by
  obtain ⟨⟨earlier, hlast⟩, hdir⟩ := exists_drawn_of_stop? h (by simp)
  have hmem : above ++ [spot] ++ below ∈ list.drawn depth dir := by
    rw [hlast]
    exact List.mem_append_right _ List.mem_cons_self
  have hspot : spot.entry.isDirectory = true := by
    rw [← Trail.isDirectory_concat above spot]
    by_cases hbelow : below = []
    · rwa [hbelow, List.append_nil] at hdir
    · exact Trail.isDirectory_of_append (descends_of_stop? h) hbelow
  refine ⟨mem_drawn_of_append hmem (by simp), ?_⟩
  rw [Trail.line_concat, Entry.displayName_eq, if_pos hspot]
  simp only [String.append_assoc]
  rfl

/-! ## Whole drawings -/

/-- **THE LAST LINE**: let stored names be ordinary.  If a drawing fails on
    another path than the root's, then that path is the root's, the joint,
    and the raw names joined by separators that lead to the entry of the
    last line written; and the error names the root as it is shown, the same
    joint, and the names of these entries joined by slashes, each as it
    stands in its own line. -/
theorem render_error_names_last {files : FileSystem} (hnames : files.root.Named Name.IsOrdinary)
    {maxLevel : Nat} {root path : Path} {cause : Cause}
    (h : (render files.list maxLevel root .unlimited).result = .error (.access path cause))
    (hpath : path ≠ root) :
    ∃ earlier trail names,
      Lister.drawn files.list maxLevel root = earlier ++ [trail] ∧
      (render files.list maxLevel root .unlimited).sink.held =
        Trail.lines earlier ++ Text.encode trail.line ∧
      Trail.Follows files root names trail ∧
      path = root ++ root.joint ++ [Path.separator].intercalate names ∧
      (Error.access path cause).message = "cannot read directory " ++ root.shown ++
        Path.shown root.joint ++ "/".intercalate (trail.map fun spot => spot.entry.name) ∧
      ∀ above spot below, trail = above ++ [spot] ++ below →
        above ++ [spot] ∈ Lister.drawn files.list maxLevel root ∧
          Trail.line (above ++ [spot]) =
            Trail.indent above ++ spot.mark ++ spot.entry.name ++ "/\n" := by
  obtain ⟨trail, hstop⟩ := result_eq_error_iff.mp h
  obtain ⟨cause', heq, -⟩ := FileSystem.access_of_stop? hstop
  obtain ⟨rfl, rfl⟩ := Error.access.inj heq
  have hne : trail ≠ [] := by
    rintro rfl
    exact hpath rfl
  obtain ⟨⟨earlier, hlast⟩, -⟩ := Lister.exists_drawn_of_stop? hstop hne
  obtain ⟨names, hfollows⟩ := Trail.exists_follows (Lister.descends_of_stop? hstop)
  have hnamesne : names ≠ [] := by
    rintro rfl
    cases hfollows
    exact hne rfl
  have htarget : Trail.target root trail =
      root ++ root.joint ++ [Path.separator].intercalate names :=
    hfollows.target_eq.trans (Path.extend_eq_intercalate hnamesne (hfollows.isOrdinary hnames))
  refine ⟨earlier, trail, names, hlast, ?_, hfollows, htarget, ?_, ?_⟩
  · rw [held_eq_lines_drawn, hlast, Trail.lines_append, Trail.lines_cons]
    exact congrArg _ (List.append_nil _)
  · have hjoined : Path.shown ([Path.separator].intercalate names) =
        "/".intercalate (trail.map fun spot => spot.entry.name) := by
      rw [hfollows.names_eq]
      exact Text.decodeLossy_intercalate names
    show "cannot read directory " ++ Path.shown (trail.target root) = _
    rw [htarget, Path.shown_append_joint, hjoined]
    simp only [String.append_assoc]
  · rintro above spot below rfl
    exact Lister.drawn_of_stop? hstop

/-- Two directories, the inner one not UTF-8 and not to be read, after a
    file. -/
def cutNameTree : FileSystem :=
  ⟨.directory .granted
    [([0x61], .file),
      ([0xC3], .directory .granted [([0xE2, 0x94], .directory ⟨false, true⟩ [])])], [], rfl⟩

theorem render_error_names_last_cutName :
    cutNameTree.root.Named Name.IsOrdinary ∧
      (render cutNameTree.list 3 [0x2E, 0x2F] .unlimited).result =
        .error (.access [0x2E, 0x2F, 0xC3, 0x2F, 0xE2, 0x94] (.system .permissionDenied)) ∧
      ([0x2E, 0x2F, 0xC3, 0x2F, 0xE2, 0x94] : Path) ≠ [0x2E, 0x2F] ∧
      (render cutNameTree.list 3 [0x2E, 0x2F] .unlimited).sink.held =
        Text.encode "├── a\n└── \uFFFD/\n    └── \uFFFD/\n" ∧
      ∃ earlier trail names,
        Lister.drawn cutNameTree.list 3 [0x2E, 0x2F] = earlier ++ [trail] ∧
        Trail.Follows cutNameTree [0x2E, 0x2F] names trail ∧
        (Error.access [0x2E, 0x2F, 0xC3, 0x2F, 0xE2, 0x94] (.system .permissionDenied)).message =
          "cannot read directory ./" ++ "/".intercalate (trail.map fun spot => spot.entry.name) := by
  have hnames : cutNameTree.root.Named Name.IsOrdinary := by
    simp only [cutNameTree, Node.named_iff_throughout, Node.throughout_directory,
      Node.throughout_file, List.forall_mem_cons, List.not_mem_nil, false_imp_iff, implies_true,
      and_true]
    decide
  have hresult : (render cutNameTree.list 3 [0x2E, 0x2F] .unlimited).result =
      .error (.access [0x2E, 0x2F, 0xC3, 0x2F, 0xE2, 0x94] (.system .permissionDenied)) := by cbv
  have hpath : ([0x2E, 0x2F, 0xC3, 0x2F, 0xE2, 0x94] : Path) ≠ [0x2E, 0x2F] := by decide
  obtain ⟨earlier, trail, names, hlast, -, hfollows, -, hmessage, -⟩ :=
    render_error_names_last hnames hresult hpath
  exact ⟨hnames, hresult, hpath, by cbv, earlier, trail, names, hlast, hfollows, hmessage⟩

end TreeSketch
