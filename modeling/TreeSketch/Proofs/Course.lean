import TreeSketch.Proofs.Output

/-! # The course of a drawing

    Of its pre-order a drawing draws the trails up to the first that stops
    it, that one included (`Lister.drawn`); where it stops and why is
    `Lister.stop?`.  Both are read off the lister alone, and

    * `held_eq_lines_drawn` says that a drawing into a sink without limit
      holds the lines of the trails that it draws;
    * `result_eq_ok` and `result_eq_error_iff` say how it ends;
    * `log_eq_reports` says what it tells the log.

    What is claimed of drawings that are complete or cut short alike is
    proved about these two. -/

namespace TreeSketch

section UpTo

variable {α β : Type} {obstacle : α → Option β}

/-- The items up to the first that has an obstacle, and that one. -/
def upTo (obstacle : α → Option β) : List α → List α
  | [] => []
  | item :: rest =>
    match obstacle item with
    | some _ => [item]
    | none => item :: upTo obstacle rest

theorem upTo_cons_of_clear {item : α} (h : obstacle item = none) (rest : List α) :
    upTo obstacle (item :: rest) = item :: upTo obstacle rest := by
  rw [upTo, h]

theorem upTo_cons_of_blocked {item : α} {b : β} (h : obstacle item = some b) (rest : List α) :
    upTo obstacle (item :: rest) = [item] := by
  rw [upTo, h]

theorem upTo_append_of_clear {before : List α} (h : ∀ item ∈ before, obstacle item = none)
    (after : List α) : upTo obstacle (before ++ after) = before ++ upTo obstacle after := by
  induction before with
  | nil => rfl
  | cons item rest ih =>
      obtain ⟨hitem, hrest⟩ := List.forall_mem_cons.mp h
      rw [List.cons_append, upTo_cons_of_clear hitem, ih hrest, List.cons_append]

theorem upTo_of_clear {items : List α} (h : ∀ item ∈ items, obstacle item = none) :
    upTo obstacle items = items := by
  simpa [upTo] using upTo_append_of_clear h []

/-- What comes after the first obstacle is left out. -/
theorem upTo_of_blocked {before : List α} {item : α} {b : β}
    (hbefore : ∀ earlier ∈ before, obstacle earlier = none) (hitem : obstacle item = some b)
    (after : List α) : upTo obstacle (before ++ item :: after) = before ++ [item] := by
  rw [upTo_append_of_clear hbefore, upTo_cons_of_blocked hitem]

theorem upTo_prefix_self (items : List α) : upTo obstacle items <+: items := by
  induction items with
  | nil => exact List.prefix_rfl
  | cons item rest ih =>
      cases hitem : obstacle item with
      | some b =>
          rw [upTo_cons_of_blocked hitem]
          exact ⟨rest, rfl⟩
      | none =>
          rw [upTo_cons_of_clear hitem]
          exact (List.prefix_cons_inj item).mpr ih

end UpTo

/-- Only what a drawing goes into can stand in its way. -/
theorem Trail.isTried_of_obstacle {list : Lister} {dir : Path} {depth : Nat} {trail : Trail}
    {e : Error} (h : obstacle list dir depth trail = some e) : trail.isTried depth = true := by
  by_contra hnot
  rw [obstacle, if_neg hnot] at h
  cases h

namespace Lister

/-- The trails that a drawing draws a line for, in order. -/
def drawn (list : Lister) (depth : Nat) (dir : Path) : List Trail :=
  upTo (Trail.obstacle list dir depth) (list.trails depth dir)

/-- The trail that a drawing stops at, the root's empty one among them, and
    why. -/
def stop? (list : Lister) (depth : Nat) (dir : Path) : Option (Trail × Error) :=
  ([] :: list.trails depth dir).findSome? fun trail =>
    (Trail.obstacle list dir depth trail).map (trail, ·)

variable {list : Lister} {depth : Nat} {dir : Path}

/-- A drawing that nothing stops has a clear way throughout. -/
theorem stop?_eq_none :
    list.stop? depth dir = none ↔
      ∀ trail ∈ [] :: list.trails depth dir, Trail.obstacle list dir depth trail = none := by
  simp only [stop?, List.findSome?_eq_none_iff, Option.map_eq_none_iff]

theorem stop?_eq_none_iff_root_below :
    list.stop? depth dir = none ↔ Trail.obstacle list dir depth [] = none ∧
      ∀ trail ∈ list.trails depth dir, Trail.obstacle list dir depth trail = none := by
  rw [stop?_eq_none, List.forall_mem_cons]

/-- It draws its pre-order to the end. -/
theorem drawn_eq_trails (h : list.stop? depth dir = none) :
    list.drawn depth dir = list.trails depth dir :=
  upTo_of_clear (stop?_eq_none_iff_root_below.mp h).2

/-- A drawing that is stopped has a clear way up to there. -/
theorem stop?_eq_some {trail : Trail} {e : Error} :
    list.stop? depth dir = some (trail, e) ↔
      Trail.obstacle list dir depth trail = some e ∧
        ∃ before after, [] :: list.trails depth dir = before ++ trail :: after ∧
          ∀ earlier ∈ before, Trail.obstacle list dir depth earlier = none := by
  rw [stop?, List.findSome?_eq_some_iff]
  constructor
  · rintro ⟨before, other, after, hsplit, hother, hbefore⟩
    obtain ⟨e', hobstacle, heq⟩ := Option.map_eq_some_iff.mp hother
    obtain ⟨rfl, rfl⟩ := Prod.mk.inj heq
    exact ⟨hobstacle, before, after, hsplit,
      fun earlier hearlier => Option.map_eq_none_iff.mp (hbefore earlier hearlier)⟩
  · rintro ⟨hobstacle, before, after, hsplit, hbefore⟩
    refine ⟨before, trail, after, hsplit, by rw [hobstacle]; rfl, ?_⟩
    intro earlier hearlier
    rw [hbefore earlier hearlier]
    rfl

/-- A directory that cannot be listed has no trails below it, so the trails
    drawn are those after the empty one. -/
theorem upTo_nil_cons :
    upTo (Trail.obstacle list dir depth) ([] :: list.trails depth dir) =
      [] :: list.drawn depth dir := by
  cases hroot : Trail.obstacle list dir depth [] with
  | none => exact upTo_cons_of_clear hroot _
  | some e =>
      have htrails : list.trails depth dir = [] := by
        rw [Trail.obstacle] at hroot
        split at hroot
        · cases hlist : list dir with
          | error e' => exact trails_of_error hlist depth
          | ok listing =>
              rw [obstacle, show Trail.target dir [] = dir from rfl, hlist] at hroot
              cases hroot
        · cases hroot
      rw [upTo_cons_of_blocked hroot, drawn, htrails]
      rfl

/-- The trails drawn end with the first that has an obstacle. -/
theorem nil_cons_drawn_of_blocked {before after : List Trail} {trail : Trail} {e : Error}
    (hsplit : [] :: list.trails depth dir = before ++ trail :: after)
    (hbefore : ∀ earlier ∈ before, Trail.obstacle list dir depth earlier = none)
    (htrail : Trail.obstacle list dir depth trail = some e) :
    [] :: list.drawn depth dir = before ++ [trail] := by
  rw [← upTo_nil_cons, hsplit, upTo_of_blocked hbefore htrail]

/-- The trails drawn are a beginning of the pre-order. -/
theorem drawn_prefix_trails : list.drawn depth dir <+: list.trails depth dir :=
  upTo_prefix_self _

/-- Only the last trail passed can be one that the drawing stops at. -/
theorem stop?_eq_of_last {passed : List Trail} {last : Trail}
    (h : [] :: list.drawn depth dir = passed ++ [last]) :
    list.stop? depth dir = (Trail.obstacle list dir depth last).map (last, ·) := by
  cases hstop : list.stop? depth dir with
  | none =>
      rw [drawn_eq_trails hstop] at h
      have hlast : last ∈ [] :: list.trails depth dir := by
        rw [h]
        exact List.mem_append_right _ List.mem_cons_self
      rw [stop?_eq_none.mp hstop last hlast]
      rfl
  | some stop =>
      obtain ⟨hobstacle, before, after, hsplit, hbefore⟩ := stop?_eq_some.mp hstop
      rw [nil_cons_drawn_of_blocked hsplit hbefore hobstacle] at h
      obtain ⟨-, hsame⟩ := List.append_inj' h rfl
      rw [← List.singleton_inj.mp hsame, hobstacle]
      rfl

/-- The trail that a drawing stops at goes down from the root. -/
theorem descends_of_stop? {trail : Trail} {e : Error} (h : list.stop? depth dir = some (trail, e)) :
    trail.Descends list dir := by
  obtain ⟨-, before, after, hsplit, -⟩ := stop?_eq_some.mp h
  have hmem : trail ∈ [] :: list.trails depth dir := by
    rw [hsplit]
    exact List.mem_append_right _ List.mem_cons_self
  rcases List.mem_cons.mp hmem with rfl | hmem
  · exact .stay dir
  · exact (mem_trails.mp hmem).2.2

end Lister

/-- What stops a drawing of a file system is a directory that cannot be
    listed, by its path. -/
theorem FileSystem.access_of_stop? {files : FileSystem} {maxLevel : Nat} {root : Path}
    {trail : Trail} {e : Error} (h : Lister.stop? files.list maxLevel root = some (trail, e)) :
    ∃ cause, e = .access (trail.target root) cause ∧
      files.readNames (trail.target root) = .error cause := by
  obtain ⟨hobstacle, -⟩ := Lister.stop?_eq_some.mp h
  rw [Trail.obstacle] at hobstacle
  split at hobstacle
  · rw [FileSystem.obstacle_list] at hobstacle
    cases hread : files.readNames (trail.target root) with
    | error cause =>
        rw [hread] at hobstacle
        exact ⟨cause, (Option.some.inj hobstacle).symm, rfl⟩
    | ok names =>
        rw [hread] at hobstacle
        cases hobstacle
  · cases hobstacle

section Render

variable (list : Lister) (maxLevel : Nat) (root : Path)

/-- **WHAT A DRAWING COMES TO**: the lines of the trails drawn, and either
    their counts or the error that it is stopped by. -/
theorem render_eq_course :
    (render list maxLevel root .unlimited).sink.held = Trail.lines (list.drawn maxLevel root) ∧
      (render list maxLevel root .unlimited).result =
        match list.stop? maxLevel root with
        | none => .ok ((list.drawn maxLevel root).foldl Trail.tally .zero)
        | some (_, e) => .error e := by
  rcases Trail.clear_or_blocked list root maxLevel ([] :: list.trails maxLevel root) with
    hclear | ⟨before, trail, after, e, hsplit, hbefore, htrail⟩
  · have hstop : list.stop? maxLevel root = none := Lister.stop?_eq_none.mpr hclear
    obtain ⟨hresult, hheld⟩ := render_of_clear hclear
    rw [hstop, Lister.drawn_eq_trails hstop]
    exact ⟨hheld, hresult⟩
  · obtain ⟨hresult, hheld, -⟩ := render_of_blocked hsplit hbefore htrail
    rw [Lister.stop?_eq_some.mpr ⟨htrail, before, after, hsplit, hbefore⟩, hheld,
      ← Lister.nil_cons_drawn_of_blocked hsplit hbefore htrail]
    exact ⟨rfl, hresult⟩

/-- What a drawing tells the log: of each trail that it passes, the root's
    empty one first, and of its end if it is complete. -/
theorem log_eq_reports :
    (render list maxLevel root .unlimited).log =
      ([] :: list.drawn maxLevel root).flatMap (Trail.report list root (.root maxLevel)) ++
        match list.stop? maxLevel root with
        | none =>
          let stats := (list.drawn maxLevel root).foldl Trail.tally .zero
          [.rendered root stats.directories stats.files]
        | some _ => [] := by
  rcases Trail.clear_or_blocked list root maxLevel ([] :: list.trails maxLevel root) with
    hclear | ⟨before, trail, after, e, hsplit, hbefore, htrail⟩
  · have hstop : list.stop? maxLevel root = none := Lister.stop?_eq_none.mpr hclear
    rw [render_unlimited (Walk.hasEffect_drawTree_of_clear hclear), hstop,
      Lister.drawn_eq_trails hstop]
    rfl
  · have hdrawn := Lister.nil_cons_drawn_of_blocked hsplit hbefore htrail
    rw [render_unlimited (Walk.hasEffect_drawTree_of_blocked hsplit hbefore htrail),
      Lister.stop?_eq_some.mpr ⟨htrail, before, after, hsplit, hbefore⟩, hdrawn, List.append_nil]
    rfl

variable {list maxLevel root}

theorem held_eq_lines_drawn :
    (render list maxLevel root .unlimited).sink.held = Trail.lines (list.drawn maxLevel root) :=
  (render_eq_course list maxLevel root).1

/-- A drawing succeeds exactly if nothing stops it. -/
theorem result_isOk_iff :
    (∃ stats, (render list maxLevel root .unlimited).result = .ok stats) ↔
      list.stop? maxLevel root = none := by
  rw [(render_eq_course list maxLevel root).2]
  cases list.stop? maxLevel root with
  | none => simp
  | some stop => simp

/-- A drawing that succeeds counts every trail. -/
theorem result_eq_ok (h : list.stop? maxLevel root = none) :
    (render list maxLevel root .unlimited).result =
      .ok ⟨(list.trails maxLevel root).countP fun trail => trail.isDirectory,
        (list.trails maxLevel root).countP fun trail => !trail.isDirectory⟩ := by
  rw [(render_of_clear (Lister.stop?_eq_none.mp h)).1, Lister.foldl_tally_trails]

/-- A drawing fails exactly with the error that stops it. -/
theorem result_eq_error_iff {e : Error} :
    (render list maxLevel root .unlimited).result = .error e ↔
      ∃ trail, list.stop? maxLevel root = some (trail, e) := by
  rw [(render_eq_course list maxLevel root).2]
  cases list.stop? maxLevel root with
  | none => simp
  | some stop => simp [Prod.ext_iff]

end Render

end TreeSketch
