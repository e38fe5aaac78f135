import TreeSketch.Proofs.Course

/-! # A drawing made of drawings

    The trails through a directory's entry are the entry's own and those
    of a drawing begun at the entry's path, each with the entry's spot in
    front (`Trail.upTo_through`).  A trail put behind a spot keeps what
    stands in its way, one level further up (`Trail.obstacle_cons`), and its
    line with the spot's indent in front (`Trail.line_cons`).

    So a drawing is composed of its entries' blocks, whatever lists the
    directories: all of them if every drawing begun at an entry succeeds
    (`render_of_endings_ok`), and else those up to the first that fails
    (`render_of_ending_error`).  It fails exactly if the root cannot be
    listed or one of them fails (`render_error_iff_ending`).
    `render_composed` says all of it of file systems. -/

namespace TreeSketch

theorem upTo_map {α β γ : Type} (obstacle : β → Option γ) (f : α → β) (items : List α) :
    upTo obstacle (items.map f) = (upTo (fun item => obstacle (f item)) items).map f := by
  induction items with
  | nil => rfl
  | cons item rest ih =>
      rw [List.map_cons, upTo, upTo]
      cases obstacle (f item) with
      | some _ => rfl
      | none => simp [ih]

namespace Trail

theorem line_singleton (spot : Spot) :
    line [spot] = spot.connector.glyph ++ spot.entry.displayName ++ "\n" := by
  rw [Spot.glyph_connector]
  show "" ++ spot.mark ++ spot.entry.displayName ++ "\n" = _
  rw [String.empty_append]

/-- Behind a spot a line begins with the spot's indent. -/
theorem line_cons {trail : Trail} (h : trail ≠ []) (spot : Spot) :
    line (spot :: trail) = spot.connector.childIndent ++ line trail := by
  obtain ⟨above, last, rfl⟩ := List.eq_nil_or_concat trail |>.resolve_left h
  simp only [line, indent, List.concat_eq_append, ← List.cons_append, List.getLast?_concat,
    List.dropLast_concat, List.map_cons, String.join_cons, Spot.childIndent_connector,
    String.append_assoc]

/-- Behind a directory's spot a trail is one level further down. -/
theorem obstacle_cons {list : Lister} {spot : Spot} (hdir : spot.entry.isDirectory = true)
    (dir : Path) (depth : Nat) (trail : Trail) :
    obstacle list dir (depth + 1) (spot :: trail) =
      obstacle list spot.entry.path depth trail := by
  have htried : isTried (depth + 1) (spot :: trail) = isTried depth trail := by
    simp [isTried, isDirectory_cons_of_directory hdir]
  rw [obstacle, obstacle, htried, target_cons]

theorem obstacle_of_file {list : Lister} {spot : Spot} (hdir : ¬ spot.entry.isDirectory = true)
    (dir : Path) (depth : Nat) : obstacle list dir depth [spot] = none := by
  have hfile : isDirectory [spot] = false := eq_false_of_ne_true hdir
  simp [obstacle, isTried, hfile]

theorem through_of_directory {spot : Spot} (hdir : spot.entry.isDirectory = true)
    (below : Path → List Trail) :
    through below spot = ([] :: below spot.entry.path).map (spot :: ·) := by
  rw [through, if_pos hdir, List.map_cons]

theorem through_of_file {spot : Spot} (hdir : ¬ spot.entry.isDirectory = true)
    (below : Path → List Trail) : through below spot = [[spot]] := by
  rw [through, if_neg hdir]

/-- Of the trails through a spot those are drawn that a drawing begun at its
    entry draws, and its own. -/
theorem upTo_through (list : Lister) (dir : Path) (depth : Nat) (spot : Spot) :
    upTo (obstacle list dir (depth + 1)) (through (list.trails depth) spot) =
      through (list.drawn depth) spot := by
  by_cases hdir : spot.entry.isDirectory = true
  · rw [through_of_directory hdir, through_of_directory hdir, upTo_map]
    simp only [obstacle_cons hdir, Lister.upTo_nil_cons]
  · rw [through_of_file hdir, through_of_file hdir, upTo_cons_of_clear (obstacle_of_file hdir dir _)]
    rfl

end Trail

namespace Spot

/-- How the drawing begun at an entry ends.  At one that is no directory
    there is nothing to draw. -/
def ending (list : Lister) (maxLevel : Nat) (spot : Spot) : Except Error Stats :=
  if spot.entry.isDirectory then (render list maxLevel spot.entry.path .unlimited).result
  else .ok .zero

/-- An entry's line, and below a directory's the lines of the drawing begun
    there, each behind the entry's indent. -/
def block (list : Lister) (maxLevel : Nat) (spot : Spot) : Bytes :=
  Text.encode (spot.connector.glyph ++ spot.entry.displayName ++ "\n") ++
    if spot.entry.isDirectory then
      (list.drawn maxLevel spot.entry.path).flatMap fun trail =>
        Text.encode (spot.connector.childIndent ++ trail.line)
    else []

variable {list : Lister} {maxLevel : Nat} {spot : Spot}

theorem lines_through (list : Lister) (maxLevel : Nat) (spot : Spot) :
    Trail.lines (Trail.through (list.drawn maxLevel) spot) = spot.block list maxLevel := by
  rw [block, ← Trail.line_singleton]
  by_cases hdir : spot.entry.isDirectory = true
  · rw [Trail.through, if_pos hdir, if_pos hdir, Trail.lines, List.flatMap_cons, List.flatMap_map]
    refine congrArg _ (List.flatMap_congr ?_)
    intro trail htrail
    have hne := Lister.ne_nil_of_mem_trails (Lister.drawn_prefix_trails.subset htrail)
    rw [Trail.line_cons hne]
  · rw [Trail.through_of_file hdir, if_neg hdir]
    rfl

/-- Where the drawing begun at an entry succeeds, nothing stands in the way
    through it. -/
theorem clear_of_ending {stats : Stats} (h : spot.ending list maxLevel = .ok stats) (dir : Path) :
    ∀ trail ∈ Trail.through (list.trails maxLevel) spot,
      Trail.obstacle list dir (maxLevel + 1) trail = none := by
  by_cases hdir : spot.entry.isDirectory = true
  · rw [ending, if_pos hdir] at h
    have hclear := clear_of_result_ok h
    rw [Trail.through_of_directory hdir]
    intro trail htrail
    obtain ⟨rest, hrest, rfl⟩ := List.mem_map.mp htrail
    rw [Trail.obstacle_cons hdir]
    exact hclear rest hrest
  · rw [Trail.through_of_file hdir]
    exact List.forall_mem_singleton.mpr (Trail.obstacle_of_file hdir dir _)

/-- Its counts, with one more for the entry, are those of the trails through
    the spot. -/
theorem count_of_ending {stats : Stats} (h : spot.ending list maxLevel = .ok stats) :
    stats.count spot.entry.isDirectory =
      ⟨(Trail.through (list.trails maxLevel) spot).countP fun trail => trail.isDirectory,
        (Trail.through (list.trails maxLevel) spot).countP fun trail => !trail.isDirectory⟩ := by
  by_cases hdir : spot.entry.isDirectory = true
  · rw [ending, if_pos hdir] at h
    have hstop := result_isOk_iff.mp ⟨stats, h⟩
    have hstats := Except.ok.inj ((result_eq_ok hstop).symm.trans h)
    -- the trail of the spot alone, drawn as a directory, is the one more
    have hempty : Trail.isDirectory [] = true := rfl
    rw [Trail.through_of_directory hdir]
    simp only [← hstats, hdir, List.countP_map, Function.comp_def,
      Trail.isDirectory_cons_of_directory hdir, List.countP_cons, hempty]
    simp [Stats.count]
  · rw [ending, if_neg hdir] at h
    have hfile : Trail.isDirectory [spot] = false := eq_false_of_ne_true hdir
    rw [Trail.through_of_file hdir, ← Except.ok.inj h]
    simp [eq_false_of_ne_true hdir, hfile, Stats.count, Stats.zero]

/-- Where it fails, something stands in the way through the spot, and
    nothing before that. -/
theorem blocked_of_ending {e : Error} (h : spot.ending list maxLevel = .error e) (dir : Path) :
    ∃ before trail after, Trail.through (list.trails maxLevel) spot = before ++ trail :: after ∧
      (∀ earlier ∈ before, Trail.obstacle list dir (maxLevel + 1) earlier = none) ∧
      Trail.obstacle list dir (maxLevel + 1) trail = some e := by
  by_cases hdir : spot.entry.isDirectory = true
  · rw [ending, if_pos hdir] at h
    obtain ⟨trail, hstop⟩ := result_eq_error_iff.mp h
    obtain ⟨htrail, before, after, hsplit, hbefore⟩ := Lister.stop?_eq_some.mp hstop
    refine ⟨before.map (spot :: ·), spot :: trail, after.map (spot :: ·), ?_, ?_, ?_⟩
    · rw [Trail.through_of_directory hdir, hsplit, List.map_append, List.map_cons]
    · intro earlier hearlier
      obtain ⟨rest, hrest, rfl⟩ := List.mem_map.mp hearlier
      rw [Trail.obstacle_cons hdir, hbefore rest hrest]
    · rw [Trail.obstacle_cons hdir, htrail]
  · rw [ending, if_neg hdir] at h
    cases h

end Spot

section Composed

variable {list : Lister} {maxLevel : Nat} {root : Path} {listing : Listing}

/-- The lines of trails through spots are the spots' blocks. -/
theorem lines_flatMap_through (list : Lister) (maxLevel : Nat) (spots : List Spot) :
    Trail.lines (spots.flatMap (Trail.through (list.drawn maxLevel))) =
      spots.flatMap (Spot.block list maxLevel) := by
  rw [Trail.lines, List.flatMap_assoc]
  exact List.flatMap_congr fun spot _ => Spot.lines_through list maxLevel spot

theorem clear_flatMap_through {spots : List Spot}
    (h : ∀ spot ∈ spots, ∃ stats, spot.ending list maxLevel = .ok stats) (dir : Path) :
    ∀ trail ∈ spots.flatMap (Trail.through (list.trails maxLevel)),
      Trail.obstacle list dir (maxLevel + 1) trail = none := by
  intro trail htrail
  obtain ⟨spot, hspot, hmem⟩ := List.mem_flatMap.mp htrail
  obtain ⟨stats, hstats⟩ := h spot hspot
  exact Spot.clear_of_ending hstats dir trail hmem

/-- With nothing in the way all trails through spots are drawn. -/
theorem flatMap_through_of_clear {spots : List Spot}
    (h : ∀ spot ∈ spots, ∃ stats, spot.ending list maxLevel = .ok stats) :
    spots.flatMap (Trail.through (list.trails maxLevel)) =
      spots.flatMap (Trail.through (list.drawn maxLevel)) := by
  refine List.flatMap_congr fun spot hspot => ?_
  obtain ⟨stats, hstats⟩ := h spot hspot
  rw [← Trail.upTo_through list [] maxLevel spot, upTo_of_clear (Spot.clear_of_ending hstats [])]

/-- A root that cannot be listed stops the drawing before its first line. -/
theorem render_of_unlisted {e : Error} (h : list root = .error e) :
    (render list (maxLevel + 1) root .unlimited).result = .error e ∧
      (render list (maxLevel + 1) root .unlimited).sink.held = [] := by
  have htrails := Lister.trails_of_error h (maxLevel + 1)
  have hroot : Trail.obstacle list root (maxLevel + 1) [] = some e := by
    show list.obstacle root = some e
    rw [Lister.obstacle, h]
  constructor
  · refine result_eq_error_iff.mpr ⟨[], Lister.stop?_eq_some.mpr ⟨hroot, [], [], ?_, ?_⟩⟩
    · rw [htrails, List.nil_append]
    · exact List.forall_mem_nil _
  · rw [held_eq_lines_drawn, Lister.drawn, htrails]
    rfl

theorem obstacle_root_of_listed (h : list root = .ok listing) (depth : Nat) :
    Trail.obstacle list root depth [] = none := by
  have hroot : list.obstacle (Trail.target root []) = none := by
    show list.obstacle root = none
    rw [Lister.obstacle, h]
  rw [Trail.obstacle, hroot, ite_self]

/-- Where every drawing begun at an entry succeeds, the drawing is all
    blocks. -/
theorem render_of_endings_ok (h : list root = .ok listing) {below : Spot → Stats}
    (hbelow : ∀ spot ∈ Spot.all listing.entries, spot.ending list maxLevel = .ok (below spot)) :
    (render list (maxLevel + 1) root .unlimited).result =
        .ok ⟨((Spot.all listing.entries).map fun spot =>
            ((below spot).count spot.entry.isDirectory).directories).sum,
          ((Spot.all listing.entries).map fun spot =>
            ((below spot).count spot.entry.isDirectory).files).sum⟩ ∧
      (render list (maxLevel + 1) root .unlimited).sink.held =
        (Spot.all listing.entries).flatMap (Spot.block list maxLevel) := by
  have hok : ∀ spot ∈ Spot.all listing.entries, ∃ stats, spot.ending list maxLevel = .ok stats :=
    fun spot hspot => ⟨below spot, hbelow spot hspot⟩
  have htrails := Lister.trails_of_ok h maxLevel
  have hclear : ∀ trail ∈ list.trails (maxLevel + 1) root,
      Trail.obstacle list root (maxLevel + 1) trail = none := by
    rw [htrails]
    exact clear_flatMap_through hok root
  constructor
  · have hstop : list.stop? (maxLevel + 1) root = none :=
      Lister.stop?_eq_none_iff_root_below.mpr ⟨obstacle_root_of_listed h _, hclear⟩
    have hcount : ∀ spot ∈ Spot.all listing.entries,
        (below spot).count spot.entry.isDirectory = _ :=
      fun spot hspot => Spot.count_of_ending (hbelow spot hspot)
    -- the counts of trails through the spots, and the spots' own counts, agree one by one
    rw [result_eq_ok hstop, htrails, List.countP_flatMap, List.countP_flatMap]
    have hdirectories := List.map_congr_left fun spot hspot =>
      congrArg Stats.directories (hcount spot hspot)
    have hfiles := List.map_congr_left fun spot hspot =>
      congrArg Stats.files (hcount spot hspot)
    rw [hdirectories, hfiles]
    rfl
  · rw [held_eq_lines_drawn, Lister.drawn, upTo_of_clear hclear, htrails,
      flatMap_through_of_clear hok, lines_flatMap_through]

/-- Where one fails, the drawing ends with that entry's block. -/
theorem render_of_ending_error (h : list root = .ok listing) {before after : List Spot}
    {spot : Spot} {e : Error} (hsplit : Spot.all listing.entries = before ++ spot :: after)
    (hbefore : ∀ earlier ∈ before, ∃ stats, earlier.ending list maxLevel = .ok stats)
    (hspot : spot.ending list maxLevel = .error e) :
    (render list (maxLevel + 1) root .unlimited).result = .error e ∧
      (render list (maxLevel + 1) root .unlimited).sink.held =
        (before ++ [spot]).flatMap (Spot.block list maxLevel) := by
  obtain ⟨passed, trail, rest, hthrough, hpassed, htrail⟩ := Spot.blocked_of_ending hspot root
  have hearlier := clear_flatMap_through hbefore root
  have htrails : list.trails (maxLevel + 1) root =
      (before.flatMap (Trail.through (list.trails maxLevel)) ++ passed) ++ trail ::
        (rest ++ after.flatMap (Trail.through (list.trails maxLevel))) := by
    rw [Lister.trails_of_ok h, hsplit, List.flatMap_append, List.flatMap_cons, hthrough]
    simp only [List.append_assoc, List.cons_append]
  have hclear : ∀ earlier ∈ before.flatMap (Trail.through (list.trails maxLevel)) ++ passed,
      Trail.obstacle list root (maxLevel + 1) earlier = none := fun earlier hmem =>
    (List.mem_append.mp hmem).elim (hearlier earlier) (hpassed earlier)
  constructor
  · have hsplit' : [] :: list.trails (maxLevel + 1) root = ([] :: _) ++ trail :: _ :=
      congrArg (List.cons []) htrails
    exact result_eq_error_iff.mpr ⟨trail, Lister.stop?_eq_some.mpr ⟨htrail, _, _, hsplit',
      List.forall_mem_cons.mpr ⟨obstacle_root_of_listed h _, hclear⟩⟩⟩
  · -- of the trails through the spot the same are drawn as by its own drawing
    have hlast : passed ++ [trail] = Trail.through (list.drawn maxLevel) spot := by
      rw [← Trail.upTo_through list root, hthrough, upTo_of_blocked hpassed htrail]
    rw [held_eq_lines_drawn, Lister.drawn, htrails, upTo_of_blocked hclear htrail,
      List.append_assoc, hlast, flatMap_through_of_clear hbefore,
      ← List.flatMap_singleton (Trail.through (list.drawn maxLevel)) spot, ← List.flatMap_append,
      lines_flatMap_through]

/-- Either every drawing begun at an entry succeeds, or there is a first
    that fails. -/
theorem endings_ok_or_first_error (list : Lister) (maxLevel : Nat) (spots : List Spot) :
    (∀ spot ∈ spots, ∃ stats, spot.ending list maxLevel = .ok stats) ∨
      ∃ before spot after e, spots = before ++ spot :: after ∧
        (∀ earlier ∈ before, ∃ stats, earlier.ending list maxLevel = .ok stats) ∧
        spot.ending list maxLevel = .error e := by
  rcases forall_or_first_not (fun spot => ∃ stats, spot.ending list maxLevel = .ok stats) spots with
    hok | ⟨before, spot, after, hsplit, hbefore, hspot⟩
  · exact Or.inl hok
  · cases hending : spot.ending list maxLevel with
    | ok stats => exact absurd ⟨stats, hending⟩ hspot
    | error e => exact Or.inr ⟨before, spot, after, e, hsplit, hbefore, hending⟩

/-- The drawing fails exactly if the root cannot be listed or a drawing begun
    at an entry fails. -/
theorem render_error_iff_ending :
    (∃ e, (render list (maxLevel + 1) root .unlimited).result = .error e) ↔
      (∃ e, list root = .error e) ∨
        ∃ listing, list root = .ok listing ∧
          ∃ spot ∈ Spot.all listing.entries, ∃ e, spot.ending list maxLevel = .error e := by
  cases hlist : list root with
  | error e =>
      have hrun : (render list (maxLevel + 1) root .unlimited).result = .error e :=
        (render_of_unlisted hlist).1
      exact ⟨fun _ => Or.inl ⟨e, rfl⟩, fun _ => ⟨e, hrun⟩⟩
  | ok listing =>
      rcases endings_ok_or_first_error list maxLevel (Spot.all listing.entries) with
        hok | ⟨before, spot, after, e, hsplit, hbefore, hspot⟩
      · -- no drawing fails: neither this one nor those below it
        have hstats : Nonempty Stats := ⟨.zero⟩
        choose! below hbelow using hok
        have hrun := (render_of_endings_ok hlist hbelow).1
        constructor
        · rintro ⟨e, he⟩
          cases hrun.symm.trans he
        · rintro (⟨e, he⟩ | ⟨listing', hlist', spot, hspot, e, he⟩)
          · cases he
          · obtain rfl := Except.ok.inj hlist'
            cases (hbelow spot hspot).symm.trans he
      · have hmem : spot ∈ Spot.all listing.entries := by
          rw [hsplit]
          exact List.mem_append_right _ List.mem_cons_self
        have hrun := (render_of_ending_error hlist hsplit hbefore hspot).1
        exact ⟨fun _ => Or.inr ⟨listing, rfl, spot, hmem, e, hspot⟩, fun _ => ⟨e, hrun⟩⟩

end Composed

/-- **COMPOSITION**: a drawing down to one level more is composed of its
    entries' blocks, in the order of the listing.  A block is the entry's
    line and, for a directory, the lines that a drawing of its own begun at
    the entry's path draws, each behind the entry's indent.  The counts are
    those of these drawings and one for each entry.  The drawing fails
    exactly if the root cannot be listed or one of them fails, then with
    the error of the first; it ends with that entry's block. -/
theorem render_composed (files : FileSystem) (maxLevel : Nat) (root : Path) :
    let run := render files.list (maxLevel + 1) root .unlimited
    (∀ dir, (render files.list maxLevel dir .unlimited).sink.held =
      Trail.lines (Lister.drawn files.list maxLevel dir)) ∧
    (∀ e, files.list root = .error e → run.result = .error e ∧ run.sink.held = []) ∧
    (∀ listing, files.list root = .ok listing →
      (∀ below : Spot → Stats,
        (∀ spot ∈ Spot.all listing.entries, spot.ending files.list maxLevel = .ok (below spot)) →
        run.result = .ok ⟨((Spot.all listing.entries).map fun spot =>
              ((below spot).count spot.entry.isDirectory).directories).sum,
            ((Spot.all listing.entries).map fun spot =>
              ((below spot).count spot.entry.isDirectory).files).sum⟩ ∧
          run.sink.held = (Spot.all listing.entries).flatMap (Spot.block files.list maxLevel)) ∧
      ∀ before spot after e, Spot.all listing.entries = before ++ spot :: after →
        (∀ earlier ∈ before, ∃ stats, earlier.ending files.list maxLevel = .ok stats) →
        spot.ending files.list maxLevel = .error e →
        run.result = .error e ∧
          run.sink.held = (before ++ [spot]).flatMap (Spot.block files.list maxLevel)) ∧
    ((∃ e, run.result = .error e) ↔
      (∃ e, files.list root = .error e) ∨
        ∃ listing, files.list root = .ok listing ∧
          ∃ spot ∈ Spot.all listing.entries, ∃ e, spot.ending files.list maxLevel = .error e) := by
  intro run
  refine ⟨fun _ => held_eq_lines_drawn, fun e => render_of_unlisted, ?_, render_error_iff_ending⟩
  intro listing hlist
  refine ⟨fun below => render_of_endings_ok hlist, ?_⟩
  intro before spot after e hsplit hbefore hspot
  exact render_of_ending_error hlist hsplit hbefore hspot

/-- A directory that can be drawn whole, one with a directory in it that
    cannot be read, and a file. -/
def halfLockedTree : FileSystem :=
  ⟨.directory .granted
    [([0x30], .directory .granted [([0x78], .file)]),
      ([0x61], .directory .granted [([0x63], .file), ([0x64], .directory ⟨false, true⟩ [])]),
      ([0x7A], .file)], [], rfl⟩

theorem render_composed_halfLocked :
    (render halfLockedTree.list 3 [0x2E] .unlimited).result =
        (render halfLockedTree.list 2 [0x2E, 0x2F, 0x61] .unlimited).result ∧
      (render halfLockedTree.list 2 [0x2E, 0x2F, 0x61] .unlimited).sink.held =
        Text.encode "├── c\n└── d/\n" ∧
      (render halfLockedTree.list 3 [0x2E] .unlimited).sink.held =
        Text.encode "├── 0/\n│   └── x\n├── a/\n│   ├── c\n│   └── d/\n" := by
  obtain ⟨-, -, hlisted, -⟩ := render_composed halfLockedTree 2 [0x2E]
  let whole : Entry := ⟨"0", [0x2E, 0x2F, 0x30], .directory⟩
  let half : Entry := ⟨"a", [0x2E, 0x2F, 0x61], .directory⟩
  let file : Entry := ⟨"z", [0x2E, 0x2F, 0x7A], .file⟩
  have hlist : halfLockedTree.list [0x2E] = .ok ⟨[whole, half, file], []⟩ := by cbv
  have hwhole : ∀ earlier ∈ [(⟨[], whole, [half, file]⟩ : Spot)],
      ∃ stats, earlier.ending halfLockedTree.list 2 = .ok stats := by
    refine List.forall_mem_singleton.mpr ⟨⟨0, 1⟩, ?_⟩
    cbv
  have hhalf : (render halfLockedTree.list 2 [0x2E, 0x2F, 0x61] .unlimited).result =
      .error (.access [0x2E, 0x2F, 0x61, 0x2F, 0x64] (.system .permissionDenied)) := by cbv
  obtain ⟨hresult, hheld⟩ := (hlisted _ hlist).2 _ ⟨[whole], half, [file]⟩ [⟨[whole, half], file, []⟩]
    _ rfl hwhole hhalf
  exact ⟨hresult.trans hhalf.symm, by cbv, hheld.trans (by cbv)⟩

end TreeSketch
