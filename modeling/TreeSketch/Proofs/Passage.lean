import TreeSketch.Proofs.Effect
import TreeSketch.Proofs.Lists
import TreeSketch.Proofs.Loop

/-! # Passages — the effect of a drawing, trail by trail

    The loop over trails passes each trail with an effect of its own: the
    bytes of its line, one entry counted, and the events of its directory's
    listing.  It is stopped by the first trail whose directory is tried and
    cannot be listed (`Trail.obstacle`).

    A drawing therefore passes either all its trails, or those up to and
    including the first with an obstacle: `Walk.hasEffect_drawTree_of_clear`
    and `Walk.hasEffect_drawTree_of_blocked`.  `Trail.clear_or_blocked` says
    that one of the two is the case. -/

namespace TreeSketch

/-- The line of a trail's last entry, drawn from a cursor on. -/
def Cursor.line (cursor : Cursor) (trail : Trail) : String :=
  match trail.getLast? with
  | none => ""
  | some spot =>
    (cursor.along trail.dropLast).indent ++ spot.connector.glyph ++ spot.entry.displayName ++ "\n"

/-- From the first level on, a line is read off the trail alone. -/
theorem Cursor.line_root (maxLevel : Nat) (trail : Trail) :
    (Cursor.root maxLevel).line trail = Trail.line trail := by
  rw [Cursor.line, Trail.line]
  cases trail.getLast? with
  | none => rfl
  | some spot =>
      show ((Cursor.root maxLevel).along trail.dropLast).indent ++ _ ++ _ ++ _ = _
      rw [Cursor.along_eq, Spot.glyph_connector]
      show "" ++ Trail.indent trail.dropLast ++ _ ++ _ ++ _ = _
      rw [String.empty_append]

namespace Lister

/-- Why a directory cannot be listed. -/
def obstacle (list : Lister) (dir : Path) : Option Error :=
  match list dir with
  | .error e => some e
  | .ok _ => none

/-- What the log is told when a directory is listed for a level. -/
def report (list : Lister) (dir : Path) (level : Nat) : List Event :=
  match list dir with
  | .error _ => []
  | .ok listing =>
    (listing.unexamined.map fun (path, cause) => .unexamined path cause) ++
      [.listing dir level listing.entries.length]

end Lister

namespace Trail

/-- The counts with the trail's last entry. -/
def tally (stats : Stats) (trail : Trail) : Stats :=
  match trail.getLast? with
  | none => stats
  | some spot => stats.count spot.entry.isDirectory

/-- Trails that look alike are counted alike. -/
theorem tally_eq_of_looks {a b : Trail} (h : looks a = looks b) (stats : Stats) :
    tally stats a = tally stats b := by
  rcases nil_or_concat_of_looks h with ⟨rfl, rfl⟩ | ⟨above, spot, above', spot', rfl, rfl, -, hspot⟩
  · rfl
  · rw [tally, tally, List.getLast?_concat, List.getLast?_concat]
    exact congrArg stats.count (congrArg Look.isDirectory hspot)

/-- Whether a walk to a depth tries to list what a trail ends at: a
    directory above the last level. -/
def isTried (depth : Nat) (trail : Trail) : Bool :=
  trail.isDirectory && trail.length < depth

/-- What stops a walk at a trail. -/
def obstacle (list : Lister) (dir : Path) (depth : Nat) (trail : Trail) : Option Error :=
  if trail.isTried depth then list.obstacle (trail.target dir) else none

/-- What a walk tells the log at a trail. -/
def report (list : Lister) (dir : Path) (cursor : Cursor) (trail : Trail) : List Event :=
  if trail.isTried cursor.levelsLeft then
    list.report (trail.target dir) (cursor.level + trail.length) else []

/-- Either nothing stands in the way on any trail, or something does on a
    first one. -/
theorem clear_or_blocked (list : Lister) (dir : Path) (depth : Nat) (trails : List Trail) :
    (∀ trail ∈ trails, obstacle list dir depth trail = none) ∨
      ∃ before trail after e, trails = before ++ trail :: after ∧
        (∀ earlier ∈ before, obstacle list dir depth earlier = none) ∧
        obstacle list dir depth trail = some e := by
  rcases forall_or_first_not (fun trail => obstacle list dir depth trail = none) trails with
    hclear | ⟨before, trail, after, hsplit, hbefore, htrail⟩
  · exact Or.inl hclear
  · obtain ⟨e, he⟩ := Option.ne_none_iff_exists'.mp htrail
    exact Or.inr ⟨before, trail, after, e, hsplit, hbefore, he⟩

end Trail

namespace Walk

/-- The result of a step that something may stand in the way of. -/
def outcome : Option Error → Except Error Unit
  | none => .ok ()
  | some e => .error e

/-- The four writes of a line are one. -/
theorem hasEffect_drawLine (cursor : Cursor) (connector : Connector) (entry : Entry)
    (stats : Stats) :
    (drawLine cursor connector entry).HasEffect stats
      ⟨Text.encode (cursor.indent ++ connector.glyph ++ entry.displayName ++ "\n"),
        stats, [], .ok ()⟩ := by
  have h := (hasEffect_write cursor.indent stats).seq
    ((hasEffect_write connector.glyph stats).seq
      ((hasEffect_write entry.displayName stats).seq (hasEffect_write "\n" stats)))
  rw [Text.encode_append, Text.encode_append, Text.encode_append, List.append_assoc,
    List.append_assoc]
  exact h

theorem hasEffect_drawEnd (cursor : Cursor) (trail : Trail) (stats : Stats) :
    (drawEnd cursor trail).HasEffect stats
      ⟨Text.encode (cursor.line trail), trail.tally stats, [], .ok ()⟩ := by
  rw [drawEnd, Cursor.line, Trail.tally]
  cases trail.getLast? with
  | none => exact hasEffect_pure () stats
  | some spot =>
      have h := (hasEffect_drawLine (cursor.along trail.dropLast) spot.connector spot.entry
        stats).seq (hasEffect_count spot.entry stats)
      rw [List.append_nil] at h
      exact h

theorem hasEffect_openDirectory (list : Lister) (dir : Path) (level : Nat) (stats : Stats) :
    (openDirectory list dir level >>= fun _ => pure ()).HasEffect stats
      ⟨[], stats, list.report dir level, outcome (list.obstacle dir)⟩ := by
  rw [openDirectory, Lister.report, Lister.obstacle]
  cases list dir with
  | error e => exact (hasEffect_throw e stats).bind_of_error
  | ok listing =>
      have h := (hasEffect_record (listing.unexamined.map fun (path, cause) =>
          Event.unexamined path cause) stats).seq
        (hasEffect_record [.listing dir level listing.entries.length] stats)
      simp only [bind_assoc, pure_bind, bind_pure_unit]
      exact h

/-- At the end of a trail a directory is opened if it is tried. -/
theorem hasEffect_arrive (list : Lister) (dir : Path) (cursor : Cursor) (trail : Trail)
    (stats : Stats) :
    (if trail.isDirectory then enter list (trail.target dir) (cursor.along trail)
      else pure ()).HasEffect stats
      ⟨[], stats, trail.report list dir cursor,
        outcome (trail.obstacle list dir cursor.levelsLeft)⟩ := by
  rw [Trail.report, Trail.obstacle, Trail.isTried]
  by_cases hdir : trail.isDirectory = true
  · rw [if_pos hdir, enter, hdir, Bool.true_and]
    by_cases htried : trail.length < cursor.levelsLeft
    · have hopen : ¬ (cursor.along trail).isExhausted = true := by
        rw [Cursor.isExhausted_along]
        exact Nat.not_le.mpr htried
      rw [if_neg hopen, decide_eq_true htried, if_pos rfl, if_pos rfl, Cursor.along_eq]
      exact hasEffect_openDirectory list (trail.target dir) _ stats
    · have hexhausted : (cursor.along trail).isExhausted = true :=
        (Cursor.isExhausted_along cursor trail).mpr (Nat.not_lt.mp htried)
      rw [if_pos hexhausted, decide_eq_false htried, if_neg Bool.false_ne_true,
        if_neg Bool.false_ne_true]
      exact hasEffect_pure () stats
  · have hfile : trail.isDirectory = false := eq_false_of_ne_true hdir
    rw [if_neg hdir, hfile, Bool.false_and, if_neg Bool.false_ne_true,
      if_neg Bool.false_ne_true]
    exact hasEffect_pure () stats

/-- A trail is passed with its line, its count and its report. -/
theorem hasEffect_visit (list : Lister) (dir : Path) (cursor : Cursor) (trail : Trail)
    (stats : Stats) :
    (visit list dir cursor trail).HasEffect stats
      ⟨Text.encode (cursor.line trail), trail.tally stats, trail.report list dir cursor,
        outcome (trail.obstacle list dir cursor.levelsLeft)⟩ := by
  have h := (hasEffect_drawEnd cursor trail stats).seq
    (hasEffect_arrive list dir cursor trail (trail.tally stats))
  rw [List.append_nil] at h
  exact h

/-- What a walk has done that has passed some trails. -/
def passage {α : Type} (list : Lister) (dir : Path) (cursor : Cursor) (stats : Stats)
    (passed : List Trail) (result : Except Error α) : Effect α :=
  ⟨passed.flatMap fun trail => Text.encode (cursor.line trail), passed.foldl Trail.tally stats,
    passed.flatMap (Trail.report list dir cursor), result⟩

/-- With nothing in the way the loop passes all its trails. -/
theorem hasEffect_forM_of_clear {list : Lister} {dir : Path} {cursor : Cursor}
    {trails : List Trail} :
    (∀ trail ∈ trails, trail.obstacle list dir cursor.levelsLeft = none) →
      ∀ stats, (forM trails (visit list dir cursor)).HasEffect stats
        (passage list dir cursor stats trails (.ok ())) := by
  induction trails with
  | nil => intro _ stats; exact hasEffect_pure () stats
  | cons trail rest ih =>
      intro hclear stats
      have hvisit := hasEffect_visit list dir cursor trail stats
      rw [hclear trail List.mem_cons_self] at hvisit
      rw [List.forM_cons]
      exact hvisit.seq (ih (fun later hlater => hclear later (List.mem_cons_of_mem _ hlater)) _)

/-- The loop passes no trail after the first with an obstacle. -/
theorem hasEffect_forM_of_blocked {list : Lister} {dir : Path} {cursor : Cursor}
    {before after : List Trail} {trail : Trail} {e : Error}
    (hbefore : ∀ earlier ∈ before, earlier.obstacle list dir cursor.levelsLeft = none)
    (htrail : trail.obstacle list dir cursor.levelsLeft = some e) (stats : Stats) :
    (forM (before ++ trail :: after) (visit list dir cursor)).HasEffect stats
      (passage list dir cursor stats (before ++ [trail]) (.error e)) := by
  have hvisit := hasEffect_visit list dir cursor trail (before.foldl Trail.tally stats)
  rw [htrail] at hvisit
  -- the trails after it are never come to, so nothing is asked of them
  have hstop : (visit list dir cursor trail >>= fun _ =>
      forM after (visit list dir cursor)).HasEffect (before.foldl Trail.tally stats) _ :=
    hvisit.bind_of_error
  have h := (hasEffect_forM_of_clear hbefore stats).seq hstop
  rw [List.forM_append, List.forM_cons, passage, List.flatMap_append, List.flatMap_append,
    List.flatMap_singleton, List.flatMap_singleton, List.foldl_append]
  exact h

/-- The end of a drawing: its counts are told and returned. -/
def conclude (root : Path) : Walk Sink Stats := do
  let progress ← get
  record [.rendered root progress.stats.directories progress.stats.files]
  return progress.stats

theorem hasEffect_conclude (root : Path) (stats : Stats) :
    (conclude root).HasEffect stats
      ⟨[], stats, [.rendered root stats.directories stats.files], .ok stats⟩ :=
  hasEffect_of_silent fun _ _ => rfl

/-- **CLEAR**: with nothing in the way a drawing passes every trail, the
    root's empty one first, and tells its counts. -/
theorem hasEffect_drawTree_of_clear {list : Lister} {maxLevel : Nat} {root : Path}
    (hclear : ∀ trail ∈ [] :: list.trails maxLevel root,
      Trail.obstacle list root maxLevel trail = none) :
    (drawTree list maxLevel root).HasEffect .zero
      (let drawn := passage list root (.root maxLevel) .zero
        ([] :: list.trails maxLevel root) (.ok ())
       ⟨drawn.bytes, drawn.stats, drawn.events ++
          [.rendered root drawn.stats.directories drawn.stats.files], .ok drawn.stats⟩) := by
  have hloop : (drawLevel list root (.root maxLevel)).HasEffect .zero
      (passage list root (.root maxLevel) .zero ([] :: list.trails maxLevel root) (.ok ())) := by
    rw [drawLevel_root]
    exact hasEffect_forM_of_clear hclear .zero
  have h := hloop.seq (hasEffect_conclude root _)
  rw [List.append_nil] at h
  exact h

/-- **BLOCKED**: a drawing ends right after the line of the first trail
    that something stands in the way of. -/
theorem hasEffect_drawTree_of_blocked {list : Lister} {maxLevel : Nat} {root : Path}
    {before after : List Trail} {trail : Trail} {e : Error}
    (htrails : [] :: list.trails maxLevel root = before ++ trail :: after)
    (hbefore : ∀ earlier ∈ before, Trail.obstacle list root maxLevel earlier = none)
    (htrail : Trail.obstacle list root maxLevel trail = some e) :
    (drawTree list maxLevel root).HasEffect .zero
      (passage list root (.root maxLevel) .zero (before ++ [trail]) (.error e)) := by
  have hloop : (drawLevel list root (.root maxLevel)).HasEffect .zero
      (passage list root (.root maxLevel) .zero (before ++ [trail]) (.error e)) := by
    rw [drawLevel_root, htrails]
    exact hasEffect_forM_of_blocked hbefore htrail .zero
  exact hloop.bind_of_error

/-- The bytes of a passage from the first level on are the trails' lines. -/
theorem bytes_passage_root {α : Type} (list : Lister) (root : Path) (maxLevel : Nat)
    (stats : Stats) (passed : List Trail) (result : Except Error α) :
    (passage list root (.root maxLevel) stats passed result).bytes = Trail.lines passed := by
  have hline : (fun trail => Text.encode ((Cursor.root maxLevel).line trail)) =
      fun trail => Text.encode (Trail.line trail) := by
    ext1 trail
    rw [Cursor.line_root]
  rw [passage, hline, Trail.lines]

end Walk

section Render

variable {list : Lister} {maxLevel : Nat} {root : Path} {effect : Effect Stats}

/-- A drawing that its sink takes whole is its effect. -/
theorem render_of_fits {sink next : Sink}
    (h : (Walk.drawTree list maxLevel root).HasEffect .zero effect)
    (hwrite : sink.write effect.bytes = (next, none)) :
    render list maxLevel root sink = ⟨effect.result, next, effect.events⟩ := by
  rw [render, renderInto, Progress.start, h.fits hwrite, Effect.ending, List.append_nil]
  cases hresult : effect.result with
  | ok stats =>
      show Rendering.mk _ _ effect.events.reverse.reverse = _
      rw [List.reverse_reverse]
  | error e =>
      show Rendering.mk _ _ effect.events.reverse.reverse = _
      rw [List.reverse_reverse]

/-- A drawing that its sink does not take whole fails as the sink does. -/
theorem render_of_fails {sink next : Sink} {cause : Cause}
    (h : (Walk.drawTree list maxLevel root).HasEffect .zero effect)
    (hwrite : sink.write effect.bytes = (next, some cause)) :
    ∃ told, told <+: effect.events ∧
      render list maxLevel root sink = ⟨.error (.io cause), next, told⟩ := by
  obtain ⟨reached, told, htold, hrun⟩ := h.fails hwrite []
  refine ⟨told, htold, ?_⟩
  rw [render, renderInto, Progress.start, hrun, List.append_nil]
  show Rendering.mk _ _ told.reverse.reverse = _
  rw [List.reverse_reverse]

theorem render_unlimited (h : (Walk.drawTree list maxLevel root).HasEffect .zero effect) :
    render list maxLevel root .unlimited =
      ⟨effect.result, Sink.unlimited.push effect.bytes, effect.events⟩ :=
  render_of_fits h (Sink.write_of_unlimited rfl effect.bytes)

end Render

end TreeSketch
