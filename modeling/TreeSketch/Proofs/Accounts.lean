import TreeSketch.Proofs.Contents
import TreeSketch.Proofs.Lockstep
import TreeSketch.Proofs.Newlines

/-! # Three accounts of one drawing

    A drawing tells the log of each directory when it opens it, counts each
    entry when it draws it, and writes the entry's line.  The accounts are
    kept at different places, so that they agree has to be shown.

    The route:

    * the log is read off the directories opened, in order (`Opening`,
      `log_eq_openings`);
    * every trail but the empty one is next below exactly one other
      (`Lister.trails_perm_next`), so what the openings list is what is
      drawn, each entry once;
    * hence the counts told add up to the entries drawn, and each opening
      with any entries has one that is drawn with a corner
      (`Lister.sum_count_openings`, `Lister.countP_corner_trails`).

    `render_accounts` puts these together. -/

namespace TreeSketch

/-! ## Openings -/

/-- A directory that a drawing opens: the trail to it and its listing. -/
structure Opening where
  trail : Trail
  listing : Listing

namespace Opening

/-- The number of entries. -/
def count (opening : Opening) : Nat :=
  opening.listing.entries.length

/-- The event of the opening itself. -/
def announcement (root : Path) (opening : Opening) : Event :=
  .listing (opening.trail.target root) (opening.trail.length + 1) opening.count

/-- What the log is told: first of the directory's own entries, then of the
    directory. -/
def events (root : Path) (opening : Opening) : List Event :=
  opening.listing.events ++ [opening.announcement root]

/-- The trails to the entries. -/
def below (opening : Opening) : List Trail :=
  (Spot.all opening.listing.entries).map fun spot => opening.trail ++ [spot]

end Opening

/-- What is opened at a trail, if anything. -/
def Trail.opening? (list : Lister) (depth : Nat) (root : Path) (trail : Trail) : Option Opening :=
  if trail.isTried depth then
    match list (trail.target root) with
    | .error _ => none
    | .ok listing => some ⟨trail, listing⟩
  else none

/-- The directories that a drawing opens, in order. -/
def Lister.openings (list : Lister) (depth : Nat) (root : Path) : List Opening :=
  ([] :: list.drawn depth root).filterMap (Trail.opening? list depth root)

namespace Trail

variable {list : Lister} {depth : Nat} {root : Path} {trail : Trail}

/-- Nothing is tried at a trail, or its directory cannot be listed, or it is
    opened. -/
theorem opening?_cases (list : Lister) (depth : Nat) (root : Path) (trail : Trail) :
    (trail.isTried depth = false ∧ trail.opening? list depth root = none) ∨
    (trail.isTried depth = true ∧ ∃ e, list (trail.target root) = .error e ∧
      trail.opening? list depth root = none) ∨
    (trail.isTried depth = true ∧ ∃ listing, list (trail.target root) = .ok listing ∧
      trail.opening? list depth root = some ⟨trail, listing⟩) := by
  rw [opening?]
  cases trail.isTried depth with
  | false => exact Or.inl ⟨rfl, rfl⟩
  | true =>
      cases list (trail.target root) with
      | error e => exact Or.inr (Or.inl ⟨rfl, e, rfl, rfl⟩)
      | ok listing => exact Or.inr (Or.inr ⟨rfl, listing, rfl, rfl⟩)

theorem opening?_eq_some {opening : Opening} (h : trail.opening? list depth root = some opening) :
    opening.trail = trail ∧ list (trail.target root) = .ok opening.listing := by
  rcases trail.opening?_cases list depth root with
    ⟨-, hnone⟩ | ⟨-, -, -, hnone⟩ | ⟨-, listing, hlist, hsome⟩
  · cases hnone.symm.trans h
  · cases hnone.symm.trans h
  · obtain rfl := Option.some.inj (hsome.symm.trans h)
    exact ⟨rfl, hlist⟩

theorem map_trail_opening? (list : Lister) (depth : Nat) (root : Path) (trail : Trail) :
    (trail.opening? list depth root).map Opening.trail =
      Option.guard (fun trail => trail.isTried depth && (list (trail.target root)).isOk) trail := by
  rw [Option.guard]
  rcases trail.opening?_cases list depth root with
    ⟨hnot, hnone⟩ | ⟨htried, e, hlist, hnone⟩ | ⟨htried, listing, hlist, hsome⟩
  · rw [hnone, hnot]; rfl
  · rw [hnone, htried, hlist]; rfl
  · rw [hsome, htried, hlist]; rfl

/-- Where nothing is in the way, what is tried is opened. -/
theorem isSome_opening? (h : obstacle list root depth trail = none) :
    (trail.opening? list depth root).isSome = trail.isTried depth := by
  rcases trail.opening?_cases list depth root with
    ⟨hnot, hnone⟩ | ⟨htried, e, hlist, -⟩ | ⟨htried, listing, -, hsome⟩
  · rw [hnone, hnot]; rfl
  · rw [obstacle, if_pos htried, Lister.obstacle, hlist] at h
    cases h
  · rw [hsome, htried]; rfl

theorem report_eq_opening? (list : Lister) (maxLevel : Nat) (root : Path) (trail : Trail) :
    report list root (.root maxLevel) trail =
      (trail.opening? list maxLevel root).elim [] (Opening.events root) := by
  rw [report, Lister.report, show (Cursor.root maxLevel).levelsLeft = maxLevel from rfl,
    show (Cursor.root maxLevel).level + trail.length = trail.length + 1 from Nat.add_comm _ _]
  rcases trail.opening?_cases list maxLevel root with
    ⟨hnot, hnone⟩ | ⟨htried, e, hlist, hnone⟩ | ⟨htried, listing, hlist, hsome⟩
  · rw [hnone, hnot]; rfl
  · rw [hnone, if_pos htried, hlist]; rfl
  · rw [hsome, if_pos htried, hlist]; rfl

end Trail

theorem Lister.next_eq_opening? (list : Lister) (depth : Nat) (root : Path) (trail : Trail) :
    list.next depth root trail = (trail.opening? list depth root).elim [] Opening.below := by
  rw [next]
  rcases trail.opening?_cases list depth root with
    ⟨hnot, hnone⟩ | ⟨htried, e, hlist, hnone⟩ | ⟨htried, listing, hlist, hsome⟩
  · rw [hnone, hnot]; rfl
  · rw [hnone, if_pos htried, hlist]; rfl
  · rw [hsome, if_pos htried, hlist]; rfl

/-! ## Each entry once -/

namespace Lister

theorem length_of_mem_next {list : Lister} {depth : Nat} {root : Path} {trail longer : Trail}
    (h : longer ∈ list.next depth root trail) : longer.length = trail.length + 1 := by
  rw [next] at h
  split at h
  · split at h
    · cases h
    · obtain ⟨spot, -, rfl⟩ := List.mem_map.mp h
      rw [List.length_append, List.length_singleton]
  · cases h

/-- **NEXT BELOW**: of the trails that go on from one, each but the first is
    next below exactly one. -/
theorem perm_flatMap_next (list : Lister) (depth : Nat) (root : Path) {left : Nat} :
    ∀ {trail : Trail}, depth - trail.length ≤ left →
      ((list.onward depth root trail).flatMap (list.next depth root)).Perm
        ((list.next depth root trail).flatMap (list.onward depth root)) := by
  -- on the levels left below the trail
  induction left with
  | zero =>
      intro trail hleft
      have hnext : list.next depth root trail = [] := by
        have hlen : ¬ trail.length < depth := by omega
        rw [next, Trail.isTried, decide_eq_false hlen, Bool.and_false, if_neg Bool.false_ne_true]
      rw [onward_eq, hnext, List.flatMap_nil, List.flatMap_singleton, hnext]
  | succ left ih =>
      intro trail hleft
      have hbelow : ∀ longer ∈ list.next depth root trail,
          ((list.onward depth root longer).flatMap (list.next depth root)).Perm
            ((list.next depth root longer).flatMap (list.onward depth root)) := by
        intro longer hlonger
        have hlen := length_of_mem_next hlonger
        exact ih (by omega)
      have hsplit := List.flatMap_append_perm (list.next depth root trail) (fun longer => [longer])
        fun longer => (list.next depth root longer).flatMap (list.onward depth root)
      rw [List.flatMap_singleton'] at hsplit
      rw [onward_eq list depth root trail, List.flatMap_cons, List.flatMap_assoc]
      refine ((List.Perm.flatMap_left _ hbelow).append_left _).trans (hsplit.trans ?_)
      refine List.Perm.of_eq (List.flatMap_congr fun longer _ => ?_)
      exact (onward_eq list depth root longer).symm

/-- So the trails are those next below the empty one and each other. -/
theorem trails_perm_next (list : Lister) (depth : Nat) (root : Path) :
    (list.trails depth root).Perm
      (([] :: list.trails depth root).flatMap (list.next depth root)) := by
  have hperm : ((list.onward depth root []).flatMap (list.next depth root)).Perm
      ((list.next depth root []).flatMap (list.onward depth root)) :=
    list.perm_flatMap_next depth root (Nat.le_refl _)
  have honward := list.onward_eq depth root []
  rw [onward_nil] at hperm honward
  rw [← (List.cons.inj honward).2] at hperm
  exact hperm.symm

/-- A drawing that nothing stops draws the entries of what it opens, each
    once. -/
theorem trails_perm_openings {list : Lister} {depth : Nat} {root : Path}
    (h : list.stop? depth root = none) :
    (list.trails depth root).Perm ((list.openings depth root).flatMap Opening.below) := by
  have hperm := list.trails_perm_next depth root
  rw [funext (list.next_eq_opening? depth root), flatMap_elim_eq] at hperm
  rw [openings, drawn_eq_trails h]
  exact hperm

end Lister

namespace Spot

theorem length_onward (entries : List Entry) :
    ∀ passed : List Entry, (onward passed entries).length = entries.length := by
  induction entries with
  | nil => intro passed; rfl
  | cons entry rest ih => intro passed; rw [onward, List.length_cons, ih, List.length_cons]

/-- One entry is the last, if there is any. -/
theorem countP_isLast_onward (entries : List Entry) :
    ∀ passed : List Entry,
      (onward passed entries).countP isLast = if entries.isEmpty then 0 else 1 := by
  induction entries with
  | nil => intro passed; rfl
  | cons entry rest ih =>
      intro passed
      rw [onward, List.countP_cons, ih]
      cases rest with
      | nil => rfl
      | cons next more => rfl

end Spot

/-- The mark that a trail's last entry is drawn with. -/
def Trail.mark? (trail : Trail) : Option String :=
  trail.getLast?.map Spot.mark

theorem Trail.mark?_concat (trail : Trail) (spot : Spot) :
    decide (mark? (trail ++ [spot]) = some "└── ") = spot.isLast := by
  rw [mark?, List.getLast?_concat, Option.map_some, Spot.mark]
  cases spot.isLast with
  | true => rfl
  | false => rfl

namespace Opening

theorem length_below (opening : Opening) : opening.below.length = opening.count := by
  rw [below, List.length_map]
  exact Spot.length_onward _ _

/-- Of the entries listed one is drawn with a corner, if there is any. -/
theorem countP_corner_below (opening : Opening) :
    opening.below.countP (fun trail => trail.mark? = some "└── ") =
      if 0 < opening.count then 1 else 0 := by
  rw [below, List.countP_map]
  simp only [Function.comp_def, Trail.mark?_concat]
  rw [Spot.all]
  refine (Spot.countP_isLast_onward _ _).trans ?_
  rw [count]
  cases opening.listing.entries with
  | nil => rfl
  | cons entry rest => rfl

end Opening

namespace Lister

variable {list : Lister} {depth : Nat} {root : Path}

/-- The entries counted at the openings are those drawn. -/
theorem sum_count_openings (h : list.stop? depth root = none) :
    ((list.openings depth root).map Opening.count).sum = (list.trails depth root).length := by
  rw [(trails_perm_openings h).length_eq, List.length_flatMap]
  simp only [Opening.length_below]

/-- As many entries are drawn with a corner as openings have any entries. -/
theorem countP_corner_trails (h : list.stop? depth root = none) :
    (list.trails depth root).countP (fun trail => trail.mark? = some "└── ") =
      (list.openings depth root).countP fun opening => 0 < opening.count := by
  rw [(trails_perm_openings h).countP_eq]
  refine countP_flatMap_of_forall fun opening _ => ?_
  rw [opening.countP_corner_below]
  simp only [decide_eq_true_eq]

/-- The openings are those of the root and of each directory drawn above the
    last level. -/
theorem length_openings (h : list.stop? depth root = none) (hlevel : 1 ≤ depth) :
    (list.openings depth root).length =
      1 + (list.drawn depth root).countP (Trail.isTried depth) := by
  have hsome : ∀ trail ∈ [] :: list.trails depth root,
      (Trail.opening? list depth root trail).isSome = Trail.isTried depth trail :=
    fun trail htrail => Trail.isSome_opening? (stop?_eq_none.mp h trail htrail)
  have hroot : Trail.isTried depth [] = true := decide_eq_true hlevel
  rw [openings, drawn_eq_trails h, List.length_filterMap_eq_countP,
    List.countP_congr fun trail htrail => by rw [hsome trail htrail], List.countP_cons, if_pos hroot,
    Nat.add_comm]

end Lister

/-! ## The log -/

namespace Event

/-- Whether an event tells of a directory that was listed. -/
def isListing : Event → Bool
  | .listing _ _ _ => true
  | _ => false

/-- Whether an event tells of a drawing that is complete. -/
def isRendered : Event → Bool
  | .rendered _ _ _ => true
  | _ => false

/-- What the log is told at the end of a drawing. -/
def ending (root : Path) : Except Error Stats → List Event
  | .ok stats => [.rendered root stats.directories stats.files]
  | .error _ => []

end Event

namespace Opening

theorem isListing_of_mem_events {listing : Listing} {event : Event} (h : event ∈ listing.events) :
    event.isListing = false ∧ event.isRendered = false := by
  obtain ⟨failure, -, rfl⟩ := List.mem_map.mp h
  exact ⟨rfl, rfl⟩

theorem filter_isListing_events (root : Path) (opening : Opening) :
    (opening.events root).filter Event.isListing = [opening.announcement root] := by
  have hown : opening.listing.events.filter Event.isListing = [] := by
    refine List.filter_eq_nil_iff.mpr fun event hevent => ?_
    rw [(isListing_of_mem_events hevent).1]
    exact Bool.false_ne_true
  rw [events, List.filter_append, hown]
  rfl

theorem isRendered_of_mem_events {root : Path} {opening : Opening} {event : Event}
    (h : event ∈ opening.events root) : event.isRendered = false := by
  rcases List.mem_append.mp h with hown | hlast
  · exact (isListing_of_mem_events hown).2
  · rw [List.mem_singleton.mp hlast]
    rfl

end Opening

section Log

variable {list : Lister} {maxLevel : Nat} {root : Path}

/-- **THE LOG** is what is told of each opening in order, and of the end. -/
theorem log_eq_openings (list : Lister) (maxLevel : Nat) (root : Path) :
    (render list maxLevel root .unlimited).log =
      (list.openings maxLevel root).flatMap (Opening.events root) ++
        Event.ending root (render list maxLevel root .unlimited).result := by
  rw [log_eq_reports, (render_eq_course list maxLevel root).2, Lister.openings,
    ← flatMap_elim_eq, ← funext (Trail.report_eq_opening? list maxLevel root)]
  cases list.stop? maxLevel root with
  | none => rfl
  | some stop => rfl

theorem filter_isListing_log (list : Lister) (maxLevel : Nat) (root : Path) :
    (render list maxLevel root .unlimited).log.filter Event.isListing =
      (list.openings maxLevel root).map (Opening.announcement root) := by
  have hending : (Event.ending root (render list maxLevel root .unlimited).result).filter
      Event.isListing = [] := by
    cases (render list maxLevel root .unlimited).result with
    | ok stats => rfl
    | error e => rfl
  rw [log_eq_openings, List.filter_append, hending, List.append_nil, List.filter_flatMap]
  simp only [Opening.filter_isListing_events]
  exact List.map_eq_flatMap.symm

/-- Only a directory that can be listed is told of as listed. -/
theorem exists_listing_of_mem_log {path : Path} {level count : Nat}
    (h : .listing path level count ∈ (render list maxLevel root .unlimited).log) :
    ∃ listing, list path = .ok listing := by
  have hmem : Event.listing path level count ∈
      (render list maxLevel root .unlimited).log.filter Event.isListing :=
    List.mem_filter.mpr ⟨h, rfl⟩
  rw [filter_isListing_log] at hmem
  obtain ⟨opening, hopening, heq⟩ := List.mem_map.mp hmem
  obtain ⟨trail, -, hsome⟩ := List.mem_filterMap.mp hopening
  obtain ⟨rfl, hlist⟩ := Trail.opening?_eq_some hsome
  obtain ⟨rfl, -, -⟩ := Event.listing.inj heq
  exact ⟨opening.listing, hlist⟩

end Log

/-! ## Whole drawings -/

/-- That openings are those of a drawing: of the root and the directories
    drawn above the last level, in the order drawn, those that can be
    listed, each with its listing. -/
structure Opening.AreOf (list : Lister) (maxLevel : Nat) (root : Path) (openings : List Opening) :
    Prop where
  trails : openings.map Opening.trail =
    ([] :: list.drawn maxLevel root).filter fun trail : Trail =>
      trail.isDirectory && trail.length < maxLevel && (list (trail.target root)).isOk
  listings : ∀ opening ∈ openings, list (opening.trail.target root) = .ok opening.listing

theorem Lister.openings_areOf (list : Lister) (maxLevel : Nat) (root : Path) :
    Opening.AreOf list maxLevel root (list.openings maxLevel root) where
  trails := by
    rw [openings, List.map_filterMap, funext (Trail.map_trail_opening? list maxLevel root),
      List.filterMap_eq_filter]
    rfl
  listings := by
    intro opening hopening
    obtain ⟨trail, -, hsome⟩ := List.mem_filterMap.mp hopening
    obtain ⟨rfl, hlist⟩ := Trail.opening?_eq_some hsome
    exact hlist

/-- That the accounts of a drawing that succeeds agree: an opening for the
    root and for each directory drawn above the last level; as many entries
    told of as counted; a corner drawn for each opening with entries; and
    the counts told last, and only then. -/
structure Opening.Tally (maxLevel : Nat) (root : Path) (drawn : List Trail) (log : List Event)
    (stats : Stats) (openings : List Opening) : Prop where
  opened : openings.length =
    1 + drawn.countP fun trail : Trail => trail.isDirectory && trail.length < maxLevel
  counted : (openings.map fun opening => opening.listing.entries.length).sum = stats.total
  corners : drawn.countP (fun trail => trail.mark? = some "└── ") =
    openings.countP fun opening => 0 < opening.listing.entries.length
  last : log.getLast? = some (.rendered root stats.directories stats.files)
  single : ∀ event ∈ log.dropLast, event.isRendered = false

theorem Opening.isRendered_of_mem_flatMap {root : Path} {openings : List Opening} :
    ∀ event ∈ openings.flatMap (Opening.events root), event.isRendered = false := by
  intro event hevent
  obtain ⟨opening, -, hmem⟩ := List.mem_flatMap.mp hevent
  exact isRendered_of_mem_events hmem

theorem tally_of_result {files : FileSystem} {maxLevel : Nat} {root : Path} {stats : Stats}
    (hlevel : 1 ≤ maxLevel) (h : (render files.list maxLevel root .unlimited).result = .ok stats) :
    Opening.Tally maxLevel root (Lister.drawn files.list maxLevel root)
      (render files.list maxLevel root .unlimited).log stats
      (Lister.openings files.list maxLevel root) := by
  have hstop := result_isOk_iff.mp ⟨stats, h⟩
  have hlog := log_eq_openings files.list maxLevel root
  rw [h] at hlog
  refine ⟨Lister.length_openings hstop hlevel, ?_, ?_, ?_, ?_⟩
  · rw [total_eq_length h]
    exact Lister.sum_count_openings hstop
  · rw [Lister.drawn_eq_trails hstop]
    exact Lister.countP_corner_trails hstop
  · rw [hlog]
    exact List.getLast?_concat
  · rw [hlog]
    show ∀ event ∈ List.dropLast (_ ++ [_]), _
    rw [List.dropLast_concat]
    exact Opening.isRendered_of_mem_flatMap

/-- **THE ACCOUNTS**: let at least one level be drawn.  The log is, for the
    root and for each directory drawn that is opened, in this order, what is
    told of its own entries and then of the directory: its path as it is
    shown, the depth of its line and one, and the number of its entries.
    At the end of a drawing that succeeds the accounts agree; a drawing that
    fails does not tell of its end; and no directory that cannot be listed
    is told of as listed. -/
theorem render_accounts {maxLevel : Nat} (hlevel : 1 ≤ maxLevel) (files : FileSystem)
    (root : Path) :
    (render files.list maxLevel root .unlimited).sink.held =
      Trail.lines (Lister.drawn files.list maxLevel root) ∧
    ∃ openings, Opening.AreOf files.list maxLevel root openings ∧
      (render files.list maxLevel root .unlimited).log =
        openings.flatMap (Opening.events root) ++
          Event.ending root (render files.list maxLevel root .unlimited).result ∧
      ((render files.list maxLevel root .unlimited).log.filter Event.isListing).map Event.fields =
        (openings.map fun opening =>
          [("dir", .text (Text.decodeLossy (opening.trail.target root))),
            ("level", .number (opening.trail.length + 1)),
            ("count", .number opening.listing.entries.length)]) ∧
      (∀ stats, (render files.list maxLevel root .unlimited).result = .ok stats →
        Opening.Tally maxLevel root (Lister.drawn files.list maxLevel root)
          (render files.list maxLevel root .unlimited).log stats openings) ∧
      (∀ e, (render files.list maxLevel root .unlimited).result = .error e →
        ∀ event ∈ (render files.list maxLevel root .unlimited).log, event.isRendered = false) ∧
      ∀ path e, files.list path = .error e → ∀ level count,
        .listing path level count ∉ (render files.list maxLevel root .unlimited).log := by
  have hlog := log_eq_openings files.list maxLevel root
  refine ⟨held_eq_lines_drawn, _, Lister.openings_areOf files.list maxLevel root, hlog, ?_,
    fun stats h => tally_of_result hlevel h, ?_, ?_⟩
  · rw [filter_isListing_log, List.map_map]
    rfl
  · intro e he
    rw [hlog, he]
    show ∀ event ∈ _ ++ [], _
    rw [List.append_nil]
    exact Opening.isRendered_of_mem_flatMap
  · intro path e he level count hmem
    obtain ⟨listing, hlist⟩ := exists_listing_of_mem_log hmem
    cases hlist.symm.trans he

/-- A link to nothing beside a directory with an empty one in it, and a
    directory that cannot be read. -/
def ledgerTree (locked : Bool) : FileSystem :=
  ⟨.directory .granted
    [([0x61], .link [0x67]),
      ([0x62], .directory .granted [([0x63], .directory .granted []), ([0x64], .file)]),
      ([0x7A], .directory ⟨!locked, true⟩ [])], [], rfl⟩

theorem render_accounts_ledger :
    1 ≤ 2 ∧
      (render (ledgerTree false).list 2 [0x2E] .unlimited).result = .ok ⟨3, 2⟩ ∧
      (render (ledgerTree false).list 2 [0x2E] .unlimited).log =
        [.unexamined [0x2E, 0x2F, 0x61] (.system .notFound), .listing [0x2E] 1 3,
          .listing [0x2E, 0x2F, 0x62] 2 2, .listing [0x2E, 0x2F, 0x7A] 2 0,
          .rendered [0x2E] 3 2] ∧
      (∃ openings : List Opening, openings.length = 3 ∧
        (openings.map fun opening => opening.listing.entries.length).sum = 5) ∧
      ∀ level count, .listing [0x2E, 0x2F, 0x7A] level count ∉
        (render (ledgerTree true).list 2 [0x2E] .unlimited).log := by
  have hlevel : 1 ≤ 2 := by decide
  have hok : (render (ledgerTree false).list 2 [0x2E] .unlimited).result = .ok ⟨3, 2⟩ := by cbv
  obtain ⟨-, openings, -, -, -, htally, -⟩ := render_accounts hlevel (ledgerTree false) [0x2E]
  obtain ⟨-, -, -, -, -, -, -, hunlisted⟩ := render_accounts hlevel (ledgerTree true) [0x2E]
  have hdrawn : (Lister.drawn (ledgerTree false).list 2 [0x2E]).countP (fun trail =>
      trail.isDirectory && trail.length < 2) = 2 := by cbv
  have hopened := (htally _ hok).opened
  rw [hdrawn] at hopened
  exact ⟨hlevel, hok, by cbv, ⟨openings, hopened, (htally _ hok).counted⟩,
    hunlisted _ (.access [0x2E, 0x2F, 0x7A] (.system .permissionDenied)) (by cbv)⟩

end TreeSketch
