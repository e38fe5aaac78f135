import TreeSketch.Proofs.Trail

/-! # The walk as a loop over trails

    The walk recurses through directories with an indent, a level and the
    rest of the siblings in hand.  Here it is shown to be one loop over the
    pre-order of `Lister.trails`: each trail draws the line of its last
    entry, counts it, and opens it if it is a directory.  What the
    recursion carries is a function of the trail, `Cursor.along`.

    `Walk.drawLevel_eq_forM` is the equation; everything about bytes,
    counts, events and errors of a run is read off the loop. -/

namespace TreeSketch

namespace Cursor

/-- The cursor below the end of a trail. -/
def along (cursor : Cursor) (trail : Trail) : Cursor :=
  trail.foldl (fun here spot => here.descend spot.connector) cursor

@[simp]
theorem along_cons (cursor : Cursor) (spot : Spot) (trail : Trail) :
    cursor.along (spot :: trail) = (cursor.descend spot.connector).along trail := rfl

/-- Going down a trail adds its indent, its length, and nothing else. -/
theorem along_eq (trail : Trail) :
    ∀ cursor : Cursor, cursor.along trail =
      ⟨cursor.indent ++ Trail.indent trail, cursor.level + trail.length, cursor.maxLevel⟩ := by
  induction trail with
  | nil =>
      intro cursor
      show cursor = ⟨cursor.indent ++ "", cursor.level, cursor.maxLevel⟩
      rw [String.append_empty]
  | cons spot trail ih =>
      intro cursor
      have hindent : Trail.indent (spot :: trail)
          = spot.connector.childIndent ++ Trail.indent trail := by
        rw [Spot.childIndent_connector]
        exact String.join_cons
      rw [along_cons, ih, hindent, List.length_cons, ← String.append_assoc,
        Nat.add_comm trail.length, ← Nat.add_assoc]
      rfl

theorem isExhausted_along (cursor : Cursor) (trail : Trail) :
    (cursor.along trail).isExhausted = true ↔ cursor.levelsLeft ≤ trail.length := by
  rw [isExhausted_iff, along_eq]
  show cursor.maxLevel + 1 - (cursor.level + trail.length) = 0 ↔
    cursor.maxLevel + 1 - cursor.level ≤ trail.length
  omega

end Cursor

namespace Walk

/-- Opens a directory where the cursor stands, if the level is drawn. -/
def enter (list : Lister) (dir : Path) (cursor : Cursor) : Walk Sink Unit :=
  if cursor.isExhausted then pure ()
  else openDirectory list dir cursor.level >>= fun _ => pure ()

/-- Draws and counts the last entry of a trail. -/
def drawEnd (cursor : Cursor) (trail : Trail) : Walk Sink Unit :=
  match trail.getLast? with
  | none => pure ()
  | some spot => do
    drawLine (cursor.along trail.dropLast) spot.connector spot.entry
    count spot.entry

/-- One turn of the loop: the line of a trail's last entry, and the opening
    of a directory. -/
def visit (list : Lister) (dir : Path) (cursor : Cursor) (trail : Trail) : Walk Sink Unit := do
  drawEnd cursor trail
  if trail.isDirectory then enter list (trail.target dir) (cursor.along trail) else pure ()

theorem visit_nil (list : Lister) (dir : Path) (cursor : Cursor) :
    visit list dir cursor [] = enter list dir cursor := rfl

/-- Below its first spot a trail is visited as one from that spot's
    entry. -/
theorem visit_cons {list : Lister} {dir : Path} {cursor : Cursor} {spot : Spot} {trail : Trail}
    (h : trail ≠ []) :
    visit list dir cursor (spot :: trail) =
      visit list spot.entry.path (cursor.descend spot.connector) trail := by
  obtain ⟨next, rest, rfl⟩ := List.exists_cons_of_ne_nil h
  rfl

theorem forM_congr {α : Type} {f g : α → Walk Sink Unit} {items : List α}
    (h : ∀ item ∈ items, f item = g item) : forM items f = forM items g := by
  induction items with
  | nil => rfl
  | cons item rest ih =>
      have hrest := ih fun other hother => h other (List.mem_cons_of_mem _ hother)
      rw [List.forM_cons, List.forM_cons, h item List.mem_cons_self, hrest]

/-- The trails through a spot: its line, and for a directory the loop over
    what is below. -/
theorem forM_through {list : Lister} {dir : Path} {cursor : Cursor}
    {below : Path → List Trail} (spot : Spot)
    (hne : ∀ trail ∈ below spot.entry.path, trail ≠ []) :
    forM (Trail.through below spot) (visit list dir cursor) = (do
      drawLine cursor spot.connector spot.entry
      count spot.entry
      if spot.entry.isDirectory then
        forM ([] :: below spot.entry.path)
          (visit list spot.entry.path (cursor.descend spot.connector))
      else pure ()) := by
  have hvisit : visit list dir cursor [spot] = (do
      drawLine cursor spot.connector spot.entry
      count spot.entry
      if spot.entry.isDirectory then
        enter list spot.entry.path (cursor.descend spot.connector)
      else pure ()) := by
    show (drawLine cursor spot.connector spot.entry >>= fun _ => count spot.entry) >>= _ = _
    rw [bind_assoc]
    rfl
  rw [Trail.through, List.forM_cons, hvisit]
  by_cases hdir : spot.entry.isDirectory = true
  · have hbelow : forM ((below spot.entry.path).map (spot :: ·)) (visit list dir cursor) =
        forM (below spot.entry.path)
          (visit list spot.entry.path (cursor.descend spot.connector)) := by
      rw [List.forM_map]
      exact forM_congr fun trail htrail => visit_cons (hne trail htrail)
    rw [if_pos hdir, if_pos hdir, if_pos hdir, hbelow, List.forM_cons, visit_nil]
    simp only [bind_assoc]
  · rw [if_neg hdir, if_neg hdir, if_neg hdir, List.forM_nil]
    simp only [bind_assoc, bind_pure_unit]

/-- The entries of a level are drawn by the loop over the trails through
    their spots. -/
theorem drawEntries_eq_forM {list : Lister} {dir : Path} {cursor : Cursor}
    {below : Path → List Trail} (hne : ∀ path, ∀ trail ∈ below path, trail ≠ [])
    (hbelow : ∀ path connector, drawLevel list path (cursor.descend connector) =
      forM ([] :: below path) (visit list path (cursor.descend connector)))
    (entries : List Entry) :
    ∀ passed : List Entry, drawEntries (drawLevel list) cursor entries =
      forM ((Spot.onward passed entries).flatMap (Trail.through below))
        (visit list dir cursor) := by
  -- on the siblings still to come; `passed` only says where they stand
  induction entries with
  | nil => intro _; rfl
  | cons entry rest ih =>
      intro passed
      rw [Spot.onward, List.flatMap_cons, List.forM_append,
        forM_through _ (hne entry.path), ← ih (passed ++ [entry]), ← hbelow]
      rw [drawEntries]
      simp only [bind_assoc]
      by_cases hdir : entry.isDirectory = true
      · simp only [hdir, if_true]
        rfl
      · simp only [hdir]
        rfl

/-- **THE LOOP**: a level is drawn by visiting the directory itself and then
    the trails below it, in pre-order. -/
theorem drawLevel_eq_forM (list : Lister) {depth : Nat} :
    ∀ {dir : Path} {cursor : Cursor}, cursor.levelsLeft = depth →
      drawLevel list dir cursor =
        forM ([] :: list.trails depth dir) (visit list dir cursor) := by
  -- on the levels left, for every directory and cursor at once
  induction depth with
  | zero =>
      intro dir cursor hleft
      have hexhausted := (Cursor.isExhausted_iff cursor).mpr hleft
      rw [drawLevel_eq, if_pos hexhausted, List.forM_cons, visit_nil, enter, if_pos hexhausted]
      rfl
  | succ depth ih =>
      intro dir cursor hleft
      have hopen : ¬ cursor.isExhausted = true := by
        intro hexhausted
        have := (Cursor.isExhausted_iff cursor).mp hexhausted
        omega
      rw [drawLevel_eq, if_neg hopen, List.forM_cons, visit_nil, enter, if_neg hopen, bind_assoc]
      cases hlist : list dir with
      | error e =>
          have hthrow : (openDirectory list dir cursor.level : Walk Sink (List Entry)) = throw e := by
            rw [openDirectory, hlist]
          -- the loop stops at its first trail, whatever the enumeration holds
          rw [hthrow]
          rfl
      | ok listing =>
          have hentries : drawEntries (drawLevel list) cursor listing.entries =
              forM (list.trails (depth + 1) dir) (visit list dir cursor) := by
            rw [Lister.trails_of_ok hlist]
            refine drawEntries_eq_forM (fun path => fun _ => Lister.ne_nil_of_mem_trails) ?_ _ []
            intro path connector
            refine ih ?_
            rw [Cursor.levelsLeft_descend, hleft, Nat.add_sub_cancel]
          rw [← hentries, openDirectory, hlist]
          simp only [bind_assoc, pure_bind]

/-- The loop of a whole drawing, from the root's empty trail on. -/
theorem drawLevel_root (list : Lister) (maxLevel : Nat) (root : Path) :
    drawLevel list root (.root maxLevel) =
      forM ([] :: list.trails maxLevel root) (visit list root (.root maxLevel)) :=
  drawLevel_eq_forM list rfl

end Walk

end TreeSketch
