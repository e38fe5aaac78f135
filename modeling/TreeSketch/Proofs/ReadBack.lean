import TreeSketch.Proofs.Composition
import TreeSketch.Proofs.Depth
import TreeSketch.Proofs.Horizon
import TreeSketch.Proofs.Utf8

/-! # Reading a drawing back

    A line begins with four characters for each level above its entry and
    four for the entry itself, and the rest is the name, with a slash after
    a directory's.  So a line is read from its front, four characters at a
    time, and what a name begins with does not matter: by then the level is
    known (`readLine`, `Trail.exists_chars`).  That a file's name does not
    end in a slash is what stored names are for.

    * `readBack?` reads a drawing line by line into depths and looks;
    * `chains` rebuilds from these what is above each entry: in a pre-order
      an entry goes on from one on the way to the entry before it
      (`Lister.isChain_trails`).

    `render_readBack` is the result for whole drawings. -/

namespace TreeSketch

/-- An entry as a drawing shows it: its depth below the root, and its look. -/
structure Shown where
  depth : Nat
  look : Look
  deriving DecidableEq, Repr

/-- The same entry one level further down. -/
def Shown.deeper (shown : Shown) : Shown :=
  { shown with depth := shown.depth + 1 }

/-- A trail's last entry as a drawing shows it; the empty trail has none. -/
def Trail.shown? (trail : Trail) : Option Shown :=
  trail.getLast?.map fun spot => ⟨trail.length, spot.look⟩

/-! ## The reader -/

/-- Reads what stands after the mark: a name, and a slash after it for a
    directory. -/
def readEntry (isLast : Bool) (chars : List Char) : Look :=
  if chars.getLast? = some '/' then ⟨isLast, String.ofList chars.dropLast, true⟩
  else ⟨isLast, String.ofList chars, false⟩

/-- Reads a line: a bar or a blank for each level above, the mark, and the
    entry. -/
def readLine : List Char → Option Shown
  | '│' :: ' ' :: ' ' :: ' ' :: rest => (readLine rest).map Shown.deeper
  | ' ' :: ' ' :: ' ' :: ' ' :: rest => (readLine rest).map Shown.deeper
  | '├' :: '─' :: '─' :: ' ' :: rest => some ⟨1, readEntry false rest⟩
  | '└' :: '─' :: '─' :: ' ' :: rest => some ⟨1, readEntry true rest⟩
  | _ => none

/-- Reads a drawing, each line up to its newline. -/
def readBack? (bytes : Bytes) : Option (List Shown) :=
  (Text.decode? bytes).bind fun text => (text.toList.splitOn '\n').dropLast.mapM readLine

/-- Rebuilds the looks on the way down to each entry, the first going on from
    those given. -/
def chains : List Look → List Shown → List (List Look)
  | _, [] => []
  | before, shown :: rest =>
    let chain := before.take (shown.depth - 1) ++ [shown.look]
    chain :: chains chain rest

/-! ## One line -/

theorem readEntry_displayName {spot : Spot} (hname : '/' ∉ spot.entry.name.toList) :
    readEntry spot.isLast spot.entry.displayName.toList = spot.look := by
  rw [readEntry, Entry.displayName_eq, Spot.look]
  by_cases hdir : spot.entry.isDirectory = true
  · rw [if_pos hdir, String.toList_append, show "/".toList = ['/'] from rfl,
      if_pos List.getLast?_concat, List.dropLast_concat, String.ofList_toList, hdir]
  · have hlast : spot.entry.name.toList.getLast? ≠ some '/' := fun hslash =>
      hname (List.mem_of_getLast? hslash)
    rw [if_neg hdir, if_neg hlast, String.ofList_toList, eq_false_of_ne_true hdir]

theorem readLine_mark (spot : Spot) (rest : List Char) :
    readLine (spot.mark.toList ++ rest) = some ⟨1, readEntry spot.isLast rest⟩ := by
  rw [Spot.mark]
  cases spot.isLast with
  | true => rfl
  | false => rfl

theorem readLine_segment (spot : Spot) (rest : List Char) :
    readLine (spot.segment.toList ++ rest) = (readLine rest).map Shown.deeper := by
  rw [Spot.segment]
  cases spot.isLast with
  | true => rfl
  | false => rfl

/-- That a look can be read off a line: its name has no slash and no
    newline. -/
structure Look.IsLegible (look : Look) : Prop where
  noSlash : '/' ∉ look.name.toList
  noNewline : '\n' ∉ look.name.toList

theorem newline_not_mem_displayName {spot : Spot} (h : spot.look.IsLegible) :
    '\n' ∉ spot.entry.displayName.toList := by
  rw [Entry.displayName_eq]
  split
  · rw [String.toList_append]
    exact List.not_mem_append h.noNewline (by decide)
  · exact h.noNewline

theorem newline_not_mem_mark (spot : Spot) : '\n' ∉ spot.mark.toList := by
  rw [Spot.mark]
  split
  · decide
  · decide

theorem newline_not_mem_segment (spot : Spot) : '\n' ∉ spot.segment.toList := by
  rw [Spot.segment]
  split
  · decide
  · decide

/-- **ONE LINE** holds characters that are read as what it shows, and then a
    newline. -/
theorem Trail.exists_chars {trail : Trail} (hne : trail ≠ [])
    (hlegible : ∀ spot ∈ trail, spot.look.IsLegible) :
    ∃ chars shown, (line trail).toList = chars ++ ['\n'] ∧ '\n' ∉ chars ∧
      trail.shown? = some shown ∧ readLine chars = some shown := by
  -- each spot above the last puts its segment in front and the entry one level down
  induction trail with
  | nil => exact absurd rfl hne
  | cons spot rest ih =>
      obtain ⟨hspot, hrest⟩ := List.forall_mem_cons.mp hlegible
      by_cases hnil : rest = []
      · subst hnil
        refine ⟨spot.mark.toList ++ spot.entry.displayName.toList, ⟨1, spot.look⟩, ?_, ?_, rfl, ?_⟩
        · rw [line_singleton, Spot.glyph_connector, String.toList_append, String.toList_append]
          rfl
        · exact List.not_mem_append (newline_not_mem_mark spot) (newline_not_mem_displayName hspot)
        · rw [readLine_mark, readEntry_displayName hspot.noSlash]
      · obtain ⟨chars, shown, hline, hnewline, hshown, hread⟩ := ih hnil hrest
        refine ⟨spot.segment.toList ++ chars, shown.deeper, ?_, ?_, ?_, ?_⟩
        · rw [line_cons hnil, Spot.childIndent_connector, String.toList_append, hline,
            List.append_assoc]
        · exact List.not_mem_append (newline_not_mem_segment spot) hnewline
        · obtain ⟨above, last, rfl⟩ := (List.eq_nil_or_concat rest).resolve_left hnil
          rw [shown?, List.concat_eq_append, List.getLast?_concat] at hshown
          rw [shown?, List.concat_eq_append, ← List.cons_append, List.getLast?_concat,
            ← Option.some.inj hshown]
          rfl
        · rw [readLine_segment, hread, Option.map_some]

/-! ## All lines -/

/-- Lines one after another come apart at their newlines. -/
theorem Trail.exists_lines {trails : List Trail} (hne : ∀ trail ∈ trails, trail ≠ [])
    (hlegible : ∀ trail ∈ trails, ∀ spot ∈ trail, spot.look.IsLegible) :
    ∃ split, (trails.flatMap fun trail => (line trail).toList).splitOn '\n' = split ++ [[]] ∧
      split.mapM readLine = some (trails.filterMap Trail.shown?) := by
  induction trails with
  | nil => exact ⟨[], rfl, rfl⟩
  | cons trail rest ih =>
      obtain ⟨hne, hnerest⟩ := List.forall_mem_cons.mp hne
      obtain ⟨hlegible, hlegiblerest⟩ := List.forall_mem_cons.mp hlegible
      obtain ⟨split, hsplit, hread⟩ := ih hnerest hlegiblerest
      obtain ⟨chars, shown, hline, hnewline, hshown, hchars⟩ := exists_chars hne hlegible
      refine ⟨chars :: split, ?_, ?_⟩
      · rw [List.flatMap_cons, hline, List.append_assoc, List.singleton_append,
          List.splitOn_append_cons_self, List.splitOn_eq_singleton hnewline, hsplit]
        rfl
      · rw [List.mapM_cons, hchars, hread, List.filterMap_cons_some hshown]
        rfl

theorem Trail.lines_eq_encode (trails : List Trail) :
    lines trails = Text.encode (String.ofList (trails.flatMap fun trail => (line trail).toList)) := by
  rw [lines, Text.encode, String.toList_ofList, List.flatMap_assoc]
  rfl

/-- **ALL LINES** are read as what they show. -/
theorem readBack?_lines {trails : List Trail} (hne : ∀ trail ∈ trails, trail ≠ [])
    (hlegible : ∀ trail ∈ trails, ∀ spot ∈ trail, spot.look.IsLegible) :
    readBack? (Trail.lines trails) = some (trails.filterMap Trail.shown?) := by
  obtain ⟨split, hsplit, hread⟩ := Trail.exists_lines hne hlegible
  rw [readBack?, Trail.lines_eq_encode, Text.decode?_encode, Option.bind_some,
    String.toList_ofList, hsplit, List.dropLast_concat, hread]

/-! ## What is above an entry -/

/-- That a trail goes on by one spot from one on the way to another. -/
def Trail.GoesOnFrom (earlier trail : Trail) : Prop :=
  trail ≠ [] ∧ trail.dropLast <+: earlier

theorem Trail.goesOnFrom_singleton (earlier : Trail) (spot : Spot) : GoesOnFrom earlier [spot] :=
  ⟨List.cons_ne_nil _ _, List.nil_prefix⟩

theorem Trail.GoesOnFrom.cons {earlier trail : Trail} (h : GoesOnFrom earlier trail) (spot : Spot) :
    GoesOnFrom (spot :: earlier) (spot :: trail) := by
  obtain ⟨hne, hbegins⟩ := h
  refine ⟨List.cons_ne_nil _ _, ?_⟩
  rw [List.dropLast_cons_of_ne_nil hne]
  exact (List.prefix_cons_inj spot).mpr hbegins

/-- The trails through spots follow on each other and on any before them if
    those below each spot do. -/
theorem Trail.isChain_flatMap_through {below : Path → List Trail}
    (hbelow : ∀ path, List.IsChain GoesOnFrom ([] :: below path)) (spots : List Spot) :
    ∀ earlier : Trail, List.IsChain GoesOnFrom (earlier :: spots.flatMap (through below)) := by
  induction spots with
  | nil => intro earlier; exact List.isChain_singleton _
  | cons spot rest ih =>
      intro earlier
      have hthrough : List.IsChain GoesOnFrom (through below spot) := by
        by_cases hdir : spot.entry.isDirectory = true
        · rw [through_of_directory hdir]
          exact List.isChain_map_of_isChain _ (fun _ _ h => h.cons spot) (hbelow _)
        · rw [through_of_file hdir]
          exact List.isChain_singleton _
      have hfirst : List.IsChain GoesOnFrom (earlier :: through below spot) :=
        List.isChain_cons_cons.mpr ⟨goesOnFrom_singleton earlier spot, hthrough⟩
      rw [List.flatMap_cons, ← List.cons_append]
      refine List.isChain_append.mpr ⟨hfirst, (ih []).tail, fun last _ next hnext => ?_⟩
      exact (List.isChain_cons.mp (ih last)).1 next hnext

/-- **PRE-ORDER**: each trail goes on from one on the way to the trail before
    it. -/
theorem Lister.isChain_trails (list : Lister) (depth : Nat) :
    ∀ dir : Path, List.IsChain Trail.GoesOnFrom ([] :: list.trails depth dir) := by
  induction depth with
  | zero => intro dir; exact List.isChain_singleton _
  | succ depth ih =>
      intro dir
      cases hlist : list dir with
      | error e => rw [trails_of_error hlist]; exact List.isChain_singleton _
      | ok listing =>
          rw [trails_of_ok hlist]
          exact Trail.isChain_flatMap_through ih _ []

/-- So the looks on the way to each trail's end are rebuilt from what the
    drawing shows. -/
theorem chains_of_isChain {trails : List Trail} :
    ∀ {earlier : Trail}, List.IsChain Trail.GoesOnFrom (earlier :: trails) →
      chains earlier.looks (trails.filterMap Trail.shown?) = trails.map Trail.looks := by
  induction trails with
  | nil => intro _ _; rfl
  | cons trail rest ih =>
      intro earlier h
      obtain ⟨⟨hne, hbegins⟩, hrest⟩ := List.isChain_cons_cons.mp h
      obtain ⟨above, spot, rfl⟩ := (List.eq_nil_or_concat trail).resolve_left hne
      rw [List.concat_eq_append] at hbegins hrest ⊢
      rw [List.dropLast_concat] at hbegins
      have hshown : Trail.shown? (above ++ [spot]) = some ⟨above.length + 1, spot.look⟩ := by
        rw [Trail.shown?, List.getLast?_concat, List.length_append]
        rfl
      have habove : earlier.looks.take above.length = Trail.looks above := by
        have hlooks := List.prefix_iff_eq_take.mp (hbegins.map Spot.look)
        rw [List.length_map] at hlooks
        exact hlooks.symm
      have hchain : earlier.looks.take (above.length + 1 - 1) ++ [spot.look] =
          Trail.looks (above ++ [spot]) := by
        rw [Nat.add_sub_cancel, habove, Trail.looks_concat]
      rw [List.filterMap_cons_some hshown, chains, List.map_cons, hchain, ih hrest]

/-! ## Whole drawings -/

/-- What is shown for a stored name has no slash. -/
theorem FileSystem.noSlash_entryAt {files : FileSystem} {dir : Path} {name : Name}
    (h : name.IsOrdinary) : '/' ∉ (files.entryAt dir name).name.toList := fun hslash =>
  h.noSeparator (Text.byte_mem_of_mem_decodeLossy hslash (by decide) (by decide))

theorem Trail.noSlash_of_descends {files : FileSystem} (hnames : files.root.Named Name.IsOrdinary)
    {dir : Path} {trail : Trail} (h : Descends files.list dir trail) :
    ∀ spot ∈ trail, '/' ∉ spot.entry.name.toList := by
  induction h with
  | stay dir => exact List.forall_mem_nil _
  | enter hlists _ _ ih =>
      obtain ⟨names, hread, name, hname, heq⟩ := Spot.exists_name hlists
      refine List.forall_mem_cons.mpr ⟨?_, ih⟩
      rw [heq]
      exact FileSystem.noSlash_entryAt (FileSystem.readNames_named hnames hread name hname)

/-- That a drawing of some trails can be read: it succeeds, into a sink that
    was empty, and none of the names that it prints has a newline. -/
structure FileSystem.DrawsLegibly (files : FileSystem) (maxLevel : Nat) (root : Path) (sink : Sink)
    (trails : List Trail) : Prop where
  ordinary : files.root.Named Name.IsOrdinary
  preOrder : PreOrder files.list maxLevel root trails
  succeeds : ∃ stats, (render files.list maxLevel root sink).result = .ok stats
  empty : sink.held = []
  noNewline : ∀ trail ∈ trails, ∀ look ∈ trail.looks, '\n' ∉ look.name.toList

namespace FileSystem.DrawsLegibly

variable {files : FileSystem} {maxLevel : Nat} {root : Path} {sink : Sink} {trails : List Trail}

theorem eq_trails (h : files.DrawsLegibly maxLevel root sink trails) :
    trails = Lister.trails files.list maxLevel root :=
  h.preOrder.unique (Lister.preOrder_trails files.list maxLevel root)

theorem readBack?_held (h : files.DrawsLegibly maxLevel root sink trails) :
    readBack? (render files.list maxLevel root sink).sink.held =
      some (trails.filterMap Trail.shown?) := by
  obtain ⟨stats, hstats⟩ := h.succeeds
  rw [held_of_isOk hstats, h.empty, List.nil_append, ← h.eq_trails]
  refine readBack?_lines (fun trail htrail => ?_) fun trail htrail spot hspot => ⟨?_, ?_⟩
  · exact List.length_pos_iff.mp ((h.preOrder.mem_iff trail).mp htrail).1
  · obtain ⟨-, -, hdescends⟩ := (h.preOrder.mem_iff trail).mp htrail
    exact Trail.noSlash_of_descends h.ordinary hdescends spot hspot
  · exact h.noNewline trail htrail spot.look (List.mem_map_of_mem hspot)

theorem chains_shown (h : files.DrawsLegibly maxLevel root sink trails) :
    chains [] (trails.filterMap Trail.shown?) = trails.map Trail.looks := by
  rw [h.eq_trails]
  exact chains_of_isChain (Lister.isChain_trails files.list maxLevel root)

end FileSystem.DrawsLegibly

/-- **READING BACK**: of a drawing that succeeds and prints no newline within
    a name, `readBack?` reads the depths and looks of the entries printed,
    in pre-order, and `chains` rebuilds from them what is above each.  So
    two such drawings with the same bytes show the same tree. -/
theorem render_readBack {files : FileSystem} {maxLevel : Nat} {root : Path} {sink : Sink}
    {trails : List Trail} (h : files.DrawsLegibly maxLevel root sink trails) :
    readBack? (render files.list maxLevel root sink).sink.held =
        some (trails.filterMap Trail.shown?) ∧
      chains [] (trails.filterMap Trail.shown?) = trails.map Trail.looks ∧
      ∀ files' maxLevel' root' sink' trails',
        FileSystem.DrawsLegibly files' maxLevel' root' sink' trails' →
        (render files.list maxLevel root sink).sink.held =
          (render files'.list maxLevel' root' sink').sink.held →
        trails.map Trail.looks = trails'.map Trail.looks := by
  refine ⟨h.readBack?_held, h.chains_shown, ?_⟩
  intro files' maxLevel' root' sink' trails' h' hheld
  have hshown : some (trails.filterMap Trail.shown?) = some (trails'.filterMap Trail.shown?) := by
    rw [← h.readBack?_held, hheld, h'.readBack?_held]
  rw [← h.chains_shown, ← h'.chains_shown, Option.some.inj hshown]

/-- Names that begin as lines do: a directory of four blanks, which holds a
    file named as a mark and a directory that is shown as U+FFFD, and a file
    named as a bar. -/
def glyphTree : FileSystem :=
  ⟨.directory .granted
    [([0x20, 0x20, 0x20, 0x20], .directory .granted
        [([0xE2, 0x94, 0x94, 0xE2, 0x94, 0x80, 0xE2, 0x94, 0x80, 0x20], .file),
          ([0xFF], .directory ⟨false, false⟩ [])]),
      ([0xE2, 0x94, 0x82, 0x20, 0x20, 0x20], .file)], [], rfl⟩

/-- The same one directory down, with another name that is shown as U+FFFD. -/
def lowerGlyphTree : FileSystem :=
  ⟨.directory .granted
    [([0x72], .directory .granted
      [([0x20, 0x20, 0x20, 0x20], .directory .granted
          [([0xE2, 0x94, 0x94, 0xE2, 0x94, 0x80, 0xE2, 0x94, 0x80, 0x20], .file),
            ([0xFE], .directory .granted [])]),
        ([0xE2, 0x94, 0x82, 0x20, 0x20, 0x20], .file)])], [], rfl⟩

theorem render_readBack_glyphs :
    glyphTree.DrawsLegibly 2 [0x2E] .unlimited (Lister.trails glyphTree.list 2 [0x2E]) ∧
      lowerGlyphTree.DrawsLegibly 3 [0x72] .unlimited (Lister.trails lowerGlyphTree.list 3 [0x72]) ∧
      (render glyphTree.list 2 [0x2E] .unlimited).sink.held =
        Text.encode "├──     /\n│   ├── └── \n│   └── \uFFFD/\n└── │   \n" ∧
      readBack? (render glyphTree.list 2 [0x2E] .unlimited).sink.held =
        some [⟨1, ⟨false, "    ", true⟩⟩, ⟨2, ⟨false, "└── ", false⟩⟩, ⟨2, ⟨true, "\uFFFD", true⟩⟩,
          ⟨1, ⟨true, "│   ", false⟩⟩] ∧
      (Lister.trails glyphTree.list 2 [0x2E]).map Trail.looks =
        (Lister.trails lowerGlyphTree.list 3 [0x72]).map Trail.looks := by
  let blanks : Look := ⟨false, "    ", true⟩
  have hlooks : (Lister.trails glyphTree.list 2 [0x2E]).map Trail.looks =
      [[blanks], [blanks, ⟨false, "└── ", false⟩], [blanks, ⟨true, "\uFFFD", true⟩],
        [⟨true, "│   ", false⟩]] := by cbv
  have hlower : (Lister.trails lowerGlyphTree.list 3 [0x72]).map Trail.looks =
      [[blanks], [blanks, ⟨false, "└── ", false⟩], [blanks, ⟨true, "\uFFFD", true⟩],
        [⟨true, "│   ", false⟩]] := by cbv
  have hshown : (Lister.trails glyphTree.list 2 [0x2E]).filterMap Trail.shown? =
      [⟨1, blanks⟩, ⟨2, ⟨false, "└── ", false⟩⟩, ⟨2, ⟨true, "\uFFFD", true⟩⟩,
        ⟨1, ⟨true, "│   ", false⟩⟩] := by cbv
  have hordinary : glyphTree.root.Named Name.IsOrdinary := by
    rw [Node.named_iff_throughout]
    simp only [glyphTree, Node.throughout_directory, Node.throughout_file, Node.children,
      List.forall_mem_cons, List.not_mem_nil, false_imp_iff, implies_true, and_true]
    decide
  have hlowerordinary : lowerGlyphTree.root.Named Name.IsOrdinary := by
    rw [Node.named_iff_throughout]
    simp only [lowerGlyphTree, Node.throughout_directory, Node.throughout_file, Node.children,
      List.forall_mem_cons, List.not_mem_nil, false_imp_iff, implies_true, and_true]
    decide
  have hnewline : ∀ looks ∈ (Lister.trails glyphTree.list 2 [0x2E]).map Trail.looks,
      ∀ look ∈ looks, '\n' ∉ look.name.toList := by rw [hlooks]; decide
  have hlowernewline : ∀ looks ∈ (Lister.trails lowerGlyphTree.list 3 [0x72]).map Trail.looks,
      ∀ look ∈ looks, '\n' ∉ look.name.toList := by rw [hlower]; decide
  have hdraws : glyphTree.DrawsLegibly 2 [0x2E] .unlimited (Lister.trails glyphTree.list 2 [0x2E]) :=
    ⟨hordinary, Lister.preOrder_trails _ _ _, ⟨⟨2, 2⟩, by cbv⟩, rfl,
      List.forall_mem_map.mp hnewline⟩
  have hlowerdraws : lowerGlyphTree.DrawsLegibly 3 [0x72] .unlimited
      (Lister.trails lowerGlyphTree.list 3 [0x72]) :=
    ⟨hlowerordinary, Lister.preOrder_trails _ _ _, ⟨⟨2, 2⟩, by cbv⟩, rfl,
      List.forall_mem_map.mp hlowernewline⟩
  have hheld : (render glyphTree.list 2 [0x2E] .unlimited).sink.held =
      Text.encode "├──     /\n│   ├── └── \n│   └── \uFFFD/\n└── │   \n" := by cbv
  have hlowerheld : (render lowerGlyphTree.list 3 [0x72] .unlimited).sink.held =
      Text.encode "├──     /\n│   ├── └── \n│   └── \uFFFD/\n└── │   \n" := by cbv
  obtain ⟨hread, -, hsame⟩ := render_readBack hdraws
  refine ⟨hdraws, hlowerdraws, hheld, hshown ▸ hread, ?_⟩
  exact hsame _ _ _ _ _ hlowerdraws (hheld.trans hlowerheld.symm)

end TreeSketch
