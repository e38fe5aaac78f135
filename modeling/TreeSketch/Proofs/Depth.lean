import TreeSketch.Proofs.Loop
import TreeSketch.Proofs.Resolution

/-! # How deep a walk can go

    Nothing keeps a walk from going round a cycle of links, and its last
    level may be any number.  What stops it is the length of paths: a
    directory's path is at least two bytes longer than that of the
    directory it is listed in, not counting a separator at the end
    (`Path.bareLength_child`), and a path of `Path.lengthLimit` bytes does
    not resolve, so that its entry is drawn as a file.  Hence no directory
    lies deeper than `Trail.deepest` levels below a root.

    `Walk.Calls` is the relation of the calls that a drawing can come to
    make; `Walk.drawLevel_eq_of_calls` shows that there are no others.
    `calls_bounded` says so, bounds their levels, tells what their indents
    are, and that last levels beyond the bound make no difference. -/

namespace TreeSketch

namespace Path

/-- The length of a path without the separator at its end, if it has one. -/
def bareLength (path : Path) : Nat :=
  if path.getLast? = some separator then path.length - 1 else path.length

theorem bareLength_le (path : Path) : path.bareLength ≤ path.length := by
  rw [bareLength]
  split
  · exact Nat.sub_le _ _
  · exact Nat.le_refl _

/-- A name has no separator in it, so the longer path does not end in one. -/
theorem getLast?_child_ne {name : Name} (hname : name.IsOrdinary) (dir : Path) :
    (dir.child name).getLast? ≠ some separator := by
  have hlast : ∀ start : Path, (start ++ name).getLast? ≠ some separator := by
    intro start hstart
    rw [List.getLast?_append, List.getLast?_eq_some_getLast hname.ne_nil, Option.some_or] at hstart
    exact hname.noSeparator (Option.some.inj hstart ▸ List.getLast_mem hname.ne_nil)
  rw [child]
  split
  · exact hlast dir
  · rw [← List.singleton_append, ← List.append_assoc]
    exact hlast _

/-- Each name makes a path longer by two bytes at least. -/
theorem bareLength_child {dir : Path} {name : Name} (hname : name.IsOrdinary) :
    dir.bareLength + 2 ≤ (dir.child name).bareLength := by
  have hone : 1 ≤ name.length := List.length_pos_iff.mpr hname.ne_nil
  rw [bareLength.eq_1 (dir.child name), if_neg (getLast?_child_ne hname dir), bareLength, child]
  by_cases hdir : dir.getLast? = some separator
  · have hpos : 1 ≤ dir.length := by
      cases dir with
      | nil => exact nomatch hdir
      | cons _ _ => exact Nat.succ_le_succ (Nat.zero_le _)
    rw [if_pos hdir, if_pos hdir, List.length_append]
    omega
  · rw [if_neg hdir, if_neg hdir, List.length_append, List.length_cons]
    omega

end Path

/-- A spot of a directory's listing is one of a name that was read there. -/
theorem Spot.exists_name {files : FileSystem} {dir : Path} {spot : Spot}
    (h : Lister.Lists files.list dir spot.siblings) :
    ∃ names, files.readNames dir = .ok names ∧
      ∃ name ∈ names, spot.entry = files.entryAt dir name := by
  obtain ⟨listing, hlist, hentries⟩ := h
  refine FileSystem.exists_name_of_list hlist ?_
  rw [hentries]
  exact List.mem_append_right _ List.mem_cons_self

namespace Trail

variable {files : FileSystem}

/-- Along a trail paths grow by two bytes a spot. -/
theorem bareLength_target (hnames : files.root.Named Name.IsOrdinary) {dir : Path} {trail : Trail}
    (h : Descends files.list dir trail) :
    dir.bareLength + 2 * trail.length ≤ (target dir trail).bareLength := by
  induction h with
  | stay dir => exact Nat.le_refl _
  | @enter dir spot rest hlists _ _ ih =>
      obtain ⟨names, hread, name, hname, heq⟩ := Spot.exists_name hlists
      have hchild : dir.bareLength + 2 ≤ spot.entry.path.bareLength := by
        rw [heq]
        exact Path.bareLength_child (FileSystem.readNames_named hnames hread name hname)
      rw [target_cons, List.length_cons]
      omega

/-- The greatest depth of a directory below a root: from there on its path
    would be too long to resolve. -/
def deepest : Nat := 2047

/-- No directory lies deeper. -/
theorem length_le_deepest (hnames : files.root.Named Name.IsOrdinary) {root : Path} {trail : Trail}
    (h : Descends files.list root trail) (hdir : isDirectory trail = true) :
    trail.length ≤ deepest := by
  rcases List.eq_nil_or_concat trail with rfl | ⟨above, spot, rfl⟩
  · exact Nat.zero_le _
  · rw [List.concat_eq_append] at h hdir ⊢
    have hgrowth := bareLength_target hnames h
    have hbare := Path.bareLength_le (target root (above ++ [spot]))
    obtain ⟨-, -, hlists⟩ := descends_concat.mp h
    obtain ⟨names, -, name, -, heq⟩ := Spot.exists_name hlists
    -- the entry is drawn as a directory, so its path was short enough to resolve
    rw [isDirectory_concat, heq] at hdir
    obtain ⟨place, hresolve, -⟩ := FileSystem.resolve_of_isDirectory hdir
    have hshort : (files.entryAt (target root above) name).path.length < 4096 :=
      (FileSystem.resolve_eq_ok_iff.mp hresolve).1.short
    rw [target_concat, heq] at hgrowth hbare
    show (above ++ [spot]).length ≤ 2047
    omega

/-- No entry lies more than one level deeper. -/
theorem length_le_of_descends (hnames : files.root.Named Name.IsOrdinary) {root : Path}
    {trail : Trail} (h : Descends files.list root trail) : trail.length ≤ deepest + 1 := by
  rcases List.eq_nil_or_concat trail with rfl | ⟨above, spot, rfl⟩
  · exact Nat.zero_le _
  · rw [List.concat_eq_append] at h ⊢
    obtain ⟨habove, hdir, -⟩ := descends_concat.mp h
    rw [List.length_append]
    exact Nat.succ_le_succ (length_le_deepest hnames habove hdir)

end Trail

namespace Walk

/-- The calls that a drawing can come to make of the drawing of a level:
    the first one, and below a level that is drawn one for each directory
    of its listing. -/
inductive Calls (list : Lister) (maxLevel : Nat) (root : Path) : Path → Cursor → Prop where
  | first : Calls list maxLevel root root (.root maxLevel)
  | descend {dir : Path} {cursor : Cursor} {spot : Spot}
      (hcall : Calls list maxLevel root dir cursor)
      (hopen : cursor.isExhausted = false)
      (hlists : list.Lists dir spot.siblings)
      (hdir : spot.entry.isDirectory = true) :
      Calls list maxLevel root spot.entry.path (cursor.descend spot.connector)

/-- Each call is for the directory at the end of a trail that is not longer
    than the last level. -/
theorem Calls.exists_trail {list : Lister} {maxLevel : Nat} {root dir : Path} {cursor : Cursor}
    (h : Calls list maxLevel root dir cursor) :
    ∃ trail : Trail, trail.Descends list root ∧ trail.isDirectory = true ∧
      trail.length ≤ maxLevel ∧ trail.target root = dir ∧
      (Cursor.root maxLevel).along trail = cursor := by
  induction h with
  | first => exact ⟨[], .stay root, rfl, Nat.zero_le _, rfl, rfl⟩
  | @descend dir cursor spot hcall hopen hlists hdir ih =>
      obtain ⟨trail, hdesc, htrail, hlen, rfl, rfl⟩ := ih
      refine ⟨trail ++ [spot], Trail.descends_concat.mpr ⟨hdesc, htrail, hlists⟩, ?_, ?_,
        Trail.target_concat _ _ _, ?_⟩
      · rw [Trail.isDirectory_concat]
        exact hdir
      · have hleft : ¬ (Cursor.root maxLevel).levelsLeft ≤ trail.length := by
          rw [← Cursor.isExhausted_along, hopen]
          exact Bool.false_ne_true
        rw [List.length_append]
        exact Nat.not_le.mp hleft
      · rw [Cursor.along, List.foldl_append]
        rfl

/-- Where no directory is deeper than the last level, a trail is visited
    alike for any last level. -/
theorem visit_eq_of_length_lt (list : Lister) (root : Path) {m n : Nat} {trail : Trail}
    (hm : trail.isDirectory = true → trail.length < m)
    (hn : trail.isDirectory = true → trail.length < n) :
    visit list root (.root m) trail = visit list root (.root n) trail := by
  have hend : drawEnd (.root m) trail = drawEnd (.root n) trail := by
    rw [drawEnd, drawEnd]
    cases trail.getLast? with
    | none => rfl
    | some spot =>
        simp only [Cursor.along_eq]
        rfl
  rw [visit, visit, hend]
  by_cases hdir : trail.isDirectory = true
  · have hopen : ∀ last, trail.length < last →
        ¬ ((Cursor.root last).along trail).isExhausted = true := by
      intro last hlast
      rw [Cursor.isExhausted_along]
      exact Nat.not_le.mpr hlast
    rw [if_pos hdir, if_pos hdir, enter, enter, if_neg (hopen m (hm hdir)),
      if_neg (hopen n (hn hdir)), Cursor.along_eq, Cursor.along_eq]
    rfl
  · rw [if_neg hdir, if_neg hdir]

/-- Entries are drawn alike by what agrees on the calls for their spots. -/
theorem drawEntries_congr_spots {below below' : Path → Cursor → Walk Sink Unit} {cursor : Cursor}
    {entries : List Entry} :
    ∀ {passed : List Entry}, (∀ spot ∈ Spot.onward passed entries, spot.entry.isDirectory = true →
      below spot.entry.path (cursor.descend spot.connector) =
        below' spot.entry.path (cursor.descend spot.connector)) →
      drawEntries below cursor entries = drawEntries below' cursor entries := by
  induction entries with
  | nil => intro _ _; rfl
  | cons entry rest ih =>
      intro passed h
      obtain ⟨hentry, hrest⟩ := List.forall_mem_cons.mp h
      have htail := ih hrest
      rw [drawEntries, drawEntries, htail]
      by_cases hdir : entry.isDirectory = true
      · have hcall : below entry.path (cursor.descend (.forPosition rest.isEmpty)) =
            below' entry.path (cursor.descend (.forPosition rest.isEmpty)) := hentry hdir
        simp only [hdir, if_true, hcall]
      · simp only [hdir]
        rfl

/-- **THE CALLS ARE ALL**: a call depends on the walk below it only at the
    calls that it leads to; what a walk would do elsewhere is not seen. -/
theorem drawLevel_eq_of_calls {list : Lister} {maxLevel : Nat} {root dir : Path} {cursor : Cursor}
    (hcall : Calls list maxLevel root dir cursor) {below : Path → Cursor → Walk Sink Unit}
    (h : ∀ dir' cursor', Calls list maxLevel root dir' cursor' →
      below dir' cursor' = drawLevel list dir' cursor') :
    drawLevel list dir cursor =
      if cursor.isExhausted then pure ()
      else openDirectory list dir cursor.level >>= drawEntries below cursor := by
  rw [drawLevel_eq]
  by_cases hexhausted : cursor.isExhausted = true
  · rw [if_pos hexhausted, if_pos hexhausted]
  · rw [if_neg hexhausted, if_neg hexhausted, openDirectory]
    cases hlist : list dir with
    | error e => rfl
    | ok listing =>
        have hspots : ∀ spot ∈ Spot.onward [] listing.entries,
            spot.entry.isDirectory = true →
            drawLevel list spot.entry.path (cursor.descend spot.connector) =
              below spot.entry.path (cursor.descend spot.connector) := by
          intro spot hspot hdir
          refine (h _ _ (.descend hcall (eq_false_of_ne_true hexhausted) ?_ hdir)).symm
          exact ⟨listing, hlist, (Spot.mem_all.mp hspot).symm⟩
        have hentries := drawEntries_congr_spots hspots
        simp only [bind_assoc, pure_bind, hentries]

end Walk

/-- Any two last levels below the deepest directories draw the same. -/
theorem render_eq_of_deepest_lt {files : FileSystem} (hnames : files.root.Named Name.IsOrdinary)
    (root : Path) {m n : Nat} (hm : Trail.deepest < m) (hn : Trail.deepest < n) (sink : Sink) :
    render files.list m root sink = render files.list n root sink := by
  have htrails : Lister.trails files.list m root = Lister.trails files.list n root :=
    Lister.trails_eq_of_length_le (fun _ => Trail.length_le_of_descends hnames) hm hn
  have hlevel : (Walk.drawLevel files.list root (.root m) : Walk Sink Unit) =
      Walk.drawLevel files.list root (.root n) := by
    rw [Walk.drawLevel_root, Walk.drawLevel_root, htrails]
    refine Walk.forM_congr ?_
    intro trail htrail
    have hdesc : Trail.Descends files.list root trail := by
      rcases List.mem_cons.mp htrail with rfl | htrail
      · exact .stay root
      · exact (Lister.mem_trails.mp htrail).2.2
    exact Walk.visit_eq_of_length_lt files.list root
      (fun hdir => Nat.lt_of_le_of_lt (Trail.length_le_deepest hnames hdesc hdir) hm)
      (fun hdir => Nat.lt_of_le_of_lt (Trail.length_le_deepest hnames hdesc hdir) hn)
  rw [render, render, renderInto, renderInto, Walk.drawTree, Walk.drawTree, hlevel]

/-- **DEPTH**: let stored names be ordinary.  Then, whatever links the file
    system holds, a drawing comes to make finitely many calls, and no others
    than those of `Walk.Calls`; each is for a level from one to 2048, and at
    most one past the last; and its indent is made of one segment fewer than
    its level, each a bar or four spaces.  Any two last levels from 2048 on
    draw the same. -/
theorem calls_bounded {files : FileSystem} (hnames : files.root.Named Name.IsOrdinary)
    (root : Path) :
    (∀ maxLevel dir cursor, Walk.Calls files.list maxLevel root dir cursor →
      ∀ below : Path → Cursor → Walk Sink Unit,
        (∀ dir' cursor', Walk.Calls files.list maxLevel root dir' cursor' →
          below dir' cursor' = Walk.drawLevel files.list dir' cursor') →
        Walk.drawLevel files.list dir cursor =
          if cursor.isExhausted then pure ()
          else Walk.openDirectory files.list dir cursor.level >>= Walk.drawEntries below cursor) ∧
    (∀ maxLevel, ∃ calls : List (Path × Cursor),
      ∀ dir cursor, Walk.Calls files.list maxLevel root dir cursor → (dir, cursor) ∈ calls) ∧
    (∀ maxLevel dir cursor, Walk.Calls files.list maxLevel root dir cursor →
      1 ≤ cursor.level ∧ cursor.level ≤ 2048 ∧ cursor.level ≤ maxLevel + 1 ∧
        cursor.level + 1 < 2 ^ 32 ∧
        ∃ segments : List String, segments.length = cursor.level - 1 ∧
          (∀ segment ∈ segments, segment = "│   " ∨ segment = "    ") ∧
          cursor.indent = String.join segments) ∧
    ∀ m n, 2048 ≤ m → 2048 ≤ n →
      ∀ sink, render files.list m root sink = render files.list n root sink := by
  refine ⟨?_, ?_, ?_, fun m n hm hn => render_eq_of_deepest_lt hnames root hm hn⟩
  · intro maxLevel dir cursor hcall below hbelow
    exact Walk.drawLevel_eq_of_calls hcall hbelow
  · intro maxLevel
    refine ⟨([] :: Lister.trails files.list maxLevel root).map fun trail =>
      (Trail.target root trail, (Cursor.root maxLevel).along trail), ?_⟩
    -- a call is determined by its trail, and of those there are finitely many
    intro dir cursor hcall
    obtain ⟨trail, hdesc, -, hlen, rfl, rfl⟩ := hcall.exists_trail
    refine List.mem_map.mpr ⟨trail, ?_, rfl⟩
    cases trail with
    | nil => exact List.mem_cons_self
    | cons spot rest =>
        exact List.mem_cons_of_mem _ (Lister.mem_trails.mpr
          ⟨Nat.succ_le_succ (Nat.zero_le _), hlen, hdesc⟩)
  · intro maxLevel dir cursor hcall
    obtain ⟨trail, hdesc, hdir, hlen, rfl, rfl⟩ := hcall.exists_trail
    have hdeepest : trail.length ≤ 2047 := Trail.length_le_deepest hnames hdesc hdir
    rw [Cursor.along_eq]
    show 1 ≤ 1 + trail.length ∧ 1 + trail.length ≤ 2048 ∧ 1 + trail.length ≤ maxLevel + 1 ∧
      1 + trail.length + 1 < 2 ^ 32 ∧
      ∃ segments : List String, segments.length = 1 + trail.length - 1 ∧
        (∀ segment ∈ segments, segment = "│   " ∨ segment = "    ") ∧
        "" ++ Trail.indent trail = String.join segments
    refine ⟨by omega, by omega, by omega, by omega, trail.map Spot.segment, ?_, ?_, ?_⟩
    · rw [List.length_map, Nat.add_sub_cancel_left]
    · intro segment hsegment
      obtain ⟨spot, -, rfl⟩ := List.mem_map.mp hsegment
      exact spot.segment_cases
    · exact String.empty_append

/-- A directory that holds nothing but a link to itself. -/
def cyclicTree : FileSystem :=
  ⟨.directory .granted [([0x61], .link [0x2E])], [], rfl⟩

theorem calls_bounded_cyclic :
    cyclicTree.root.Named Name.IsOrdinary ∧
      (∃ cursor, Walk.Calls cyclicTree.list 4294967295 [0x2E] [0x2E, 0x2F, 0x61] cursor ∧
        cursor.level ≤ 2048) ∧
      ∀ sink, render cyclicTree.list 2048 [0x2E] sink =
        render cyclicTree.list 4294967295 [0x2E] sink := by
  have hnames : cyclicTree.root.Named Name.IsOrdinary :=
    .directory (List.forall_mem_singleton.mpr ⟨by decide, by decide⟩)
      (List.forall_mem_singleton.mpr (.link _))
  obtain ⟨-, -, hlevels, hsame⟩ := calls_bounded hnames [0x2E]
  let spot : Spot := ⟨[], ⟨"a", [0x2E, 0x2F, 0x61], .directory⟩, []⟩
  have hlist : cyclicTree.list [0x2E] = .ok ⟨spot.siblings, []⟩ := by cbv
  have hcall : Walk.Calls cyclicTree.list 4294967295 [0x2E] spot.entry.path _ :=
    .descend .first rfl ⟨_, hlist, rfl⟩ rfl
  exact ⟨hnames, ⟨_, hcall, (hlevels _ _ _ hcall).2.1⟩,
    hsame 2048 4294967295 (by decide) (by decide)⟩

end TreeSketch
