import TreeSketch.Proofs.Newlines

/-! # The rows of a drawing

    A *row* is a line cut into cells of four characters, up to the mark,
    which is the last of them.  What is said of rows here is said of the
    text alone: whoever reads it sees neither entries nor directories.

    The route:

    * `Row.readAll?` cuts a text into rows; `Row.Stands` says of a row that
      it stands rightly between those before it and those after it, and
      `Row.Coherent` that every row does;
    * a row above coherent rows put under its own indent, with the rows of
      its later siblings after them, is coherent again (`Coherent.block`),
      so the rows of a directory are (`Lister.coherent_rows`);
    * where rows are coherent each cell before a mark goes back to a row of
      the cell's depth (`Coherent.exists_above`), so every bar joins a tee to
      that tee's next sibling (`Coherent.joins`).

    `render_rows_coherent` is the result for whole drawings. -/

namespace TreeSketch

/-- A line cut into cells: those before its mark, the mark, and the text after
    them. -/
structure Row where
  above : List String
  mark : Connector
  text : String
  deriving DecidableEq, Repr

namespace Row

/-- The cells of a row, the mark's the last of them. -/
def cells (row : Row) : List String :=
  row.above ++ [row.mark.glyph]

/-- The depth of a row is the number of its cells. -/
def depth (row : Row) : Nat :=
  row.cells.length

/-- The cell of a row at a depth, counted from one. -/
def cell? (row : Row) (depth : Nat) : Option String :=
  row.cells[depth - 1]?

/-- The line that a row is cut from. -/
def line (row : Row) : String :=
  String.join row.cells ++ row.text

/-- The bytes of rows' lines, each with a newline. -/
def lines (rows : List Row) : Bytes :=
  rows.flatMap fun row => Text.encode (row.line ++ "\n")

/-- Whether a row's line ends in a slash, as a directory's does. -/
def EndsInSlash (row : Row) : Prop :=
  row.line.toList.getLast? = some '/'

/-- The row with one more cell in front. -/
def under (cell : String) (row : Row) : Row :=
  { row with above := cell :: row.above }

/-! ## The reader -/

/-- Cuts a line into cells, up to the first that is a mark. -/
def read? : List Char → Option Row
  | '├' :: '─' :: '─' :: ' ' :: text => some ⟨[], .tee, String.ofList text⟩
  | '└' :: '─' :: '─' :: ' ' :: text => some ⟨[], .corner, String.ofList text⟩
  | a :: b :: c :: d :: rest => (read? rest).map (under (String.ofList [a, b, c, d]))
  | _ => none

/-- Cuts a line's bytes into cells. -/
def readLine? (bytes : Bytes) : Option Row :=
  (Text.decode? bytes).bind fun line => read? line.toList

/-- Cuts a text into lines at its newlines, and each line into cells. -/
def readAll? (bytes : Bytes) : Option (List Row) :=
  (bytes.splitOn Text.newline).dropLast.mapM readLine?

/-! ## Rows that hang together -/

/-- That a row is further down than a depth and has this cell there. -/
def Passes (depth : Nat) (cell : String) (row : Row) : Prop :=
  depth < row.depth ∧ row.cell? depth = some cell

/-- That a row stands rightly between the rows before it and those after it:
    from a tee a bar goes down through all deeper rows to the next of the
    same depth; below a corner the deeper rows are blank, and what comes
    after them is further up; and a row below the first depth hangs from a
    directory's row one further up. -/
structure Stands (before : List Row) (row : Row) (after : List Row) : Prop where
  tee : row.mark = .tee → ∃ between next rest, after = between ++ next :: rest ∧
    (∀ deeper ∈ between, deeper.Passes row.depth "│   ") ∧ next.depth = row.depth
  corner : row.mark = .corner → ∃ between rest, after = between ++ rest ∧
    (∀ deeper ∈ between, deeper.Passes row.depth "    ") ∧
    ∀ next ∈ rest.head?, next.depth < row.depth
  parent : 1 < row.depth → ∃ earlier parent between, before = earlier ++ parent :: between ∧
    parent.depth + 1 = row.depth ∧ parent.EndsInSlash ∧
    ∀ sibling ∈ between, row.depth ≤ sibling.depth

/-- That every row stands rightly among the others. -/
def Coherent (rows : List Row) : Prop :=
  ∀ before row after, rows = before ++ row :: after → row.Stands before after

theorem one_le_depth (row : Row) : 1 ≤ row.depth := by
  simp [depth, cells]

@[simp]
theorem depth_under (cell : String) (row : Row) : (row.under cell).depth = row.depth + 1 := rfl

@[simp]
theorem line_under (cell : String) (row : Row) : (row.under cell).line = cell ++ row.line := by
  rw [line, line, ← String.append_assoc]
  exact congrArg (· ++ row.text) (String.join_cons ..)

theorem EndsInSlash.under {row : Row} (h : row.EndsInSlash) (cell : String) :
    (row.under cell).EndsInSlash := by
  rw [EndsInSlash, line_under, String.toList_append, List.getLast?_append, h]
  rfl

theorem cell?_under_one (cell : String) (row : Row) : (row.under cell).cell? 1 = some cell := rfl

/-- Behind a cell the others are one further on. -/
theorem cell?_under_succ {depth : Nat} (h : 1 ≤ depth) (cell : String) (row : Row) :
    (row.under cell).cell? (depth + 1) = row.cell? depth := by
  obtain ⟨depth, rfl⟩ := Nat.exists_eq_add_of_le' h
  rfl

theorem Passes.under {depth : Nat} {cell : String} {row : Row} (h : row.Passes depth cell)
    (hdepth : 1 ≤ depth) (front : String) : (row.under front).Passes (depth + 1) cell := by
  obtain ⟨hdeeper, hcell⟩ := h
  refine ⟨Nat.succ_lt_succ hdeeper, ?_⟩
  rw [cell?_under_succ hdepth, hcell]

theorem forall_passes_under {depth : Nat} {cell : String} {rows : List Row}
    (h : ∀ row ∈ rows, row.Passes depth cell) (hdepth : 1 ≤ depth) (front : String) :
    ∀ row ∈ rows.map (under front), row.Passes (depth + 1) cell :=
  List.forall_mem_map.mpr fun row hmem => (h row hmem).under hdepth front

/-- What is put under a cell of the first depth passes there. -/
theorem passes_under (cell : String) (row : Row) : (row.under cell).Passes 1 cell :=
  ⟨Nat.succ_lt_succ row.one_le_depth, cell?_under_one cell row⟩

/-- What may come after the block of a row of the first depth: its next
    sibling after a tee, and nothing after a corner. -/
def Continues (mark : Connector) (rest : List Row) : Prop :=
  match mark with
  | .tee => ∃ next more, rest = next :: more ∧ next.depth = 1
  | .corner => rest = []

theorem Continues.depth_head {mark : Connector} {rest : List Row} (h : Continues mark rest) :
    ∀ next ∈ rest.head?, next.depth = 1 := by
  cases mark with
  | tee =>
      obtain ⟨next, more, rfl, hnext⟩ := h
      rintro _ ⟨⟩
      exact hnext
  | corner =>
      obtain rfl : rest = [] := h
      exact fun next hnone => nomatch hnone

namespace Stands

variable {before after : List Row} {row : Row}

/-- Rows put before the others change nothing. -/
theorem behind (h : row.Stands before after) (front : List Row) :
    row.Stands (front ++ before) after := by
  refine ⟨h.tee, h.corner, fun hdepth => ?_⟩
  obtain ⟨earlier, parent, between, rfl, hparent⟩ := h.parent hdepth
  exact ⟨front ++ earlier, parent, between, (List.append_assoc _ _ _).symm, hparent⟩

/-- Rows put after the others change nothing if the first of them is further
    up. -/
theorem ahead (h : row.Stands before after) {back : List Row}
    (hback : ∀ next ∈ back.head?, next.depth < row.depth) : row.Stands before (after ++ back) := by
  refine ⟨fun hmark => ?_, fun hmark => ?_, h.parent⟩
  · obtain ⟨between, next, rest, rfl, hsibling⟩ := h.tee hmark
    exact ⟨between, next, rest ++ back, by simp, hsibling⟩
  · obtain ⟨between, rest, rfl, hbetween, hnext⟩ := h.corner hmark
    refine ⟨between, rest ++ back, List.append_assoc _ _ _, hbetween, ?_⟩
    cases rest with
    | nil => exact hback
    | cons next rest => exact hnext

/-- Put under the indent of a directory's row and behind that row, a row
    stands as before: the directory's is the one that a row of the first
    depth hangs from. -/
theorem under (h : row.Stands before after) {first : Row} (hfirst : first.depth = 1)
    (hdir : first.EndsInSlash) (cell : String) :
    (row.under cell).Stands (first :: before.map (Row.under cell)) (after.map (Row.under cell)) := by
  refine ⟨fun hmark => ?_, fun hmark => ?_, fun _ => ?_⟩
  · obtain ⟨between, next, rest, rfl, hbetween, hnext⟩ := h.tee hmark
    exact ⟨between.map (Row.under cell), next.under cell, rest.map (Row.under cell), by simp,
      forall_passes_under hbetween row.one_le_depth cell, congrArg Nat.succ hnext⟩
  · obtain ⟨between, rest, rfl, hbetween, hnext⟩ := h.corner hmark
    refine ⟨between.map (Row.under cell), rest.map (Row.under cell), List.map_append,
      forall_passes_under hbetween row.one_le_depth cell, ?_⟩
    cases rest with
    | nil => exact fun next hnone => nomatch hnone
    | cons next rest =>
        rintro _ ⟨⟩
        exact Nat.succ_lt_succ (hnext next rfl)
  · -- a row of the first depth hangs from `first`, any other from what it hung from
    by_cases hdepth : 1 < row.depth
    · obtain ⟨earlier, parent, between, rfl, hparent, hslash, hbetween⟩ := h.parent hdepth
      refine ⟨first :: earlier.map (Row.under cell), parent.under cell,
        between.map (Row.under cell), by simp, congrArg Nat.succ hparent, hslash.under cell, ?_⟩
      exact List.forall_mem_map.mpr fun sibling hmem => Nat.succ_le_succ (hbetween sibling hmem)
    · have hone : row.depth = 1 := Nat.le_antisymm (Nat.not_lt.mp hdepth) row.one_le_depth
      refine ⟨[], first, before.map (Row.under cell), rfl, ?_, hdir, ?_⟩
      · rw [hfirst, depth_under, hone]
      · refine List.forall_mem_map.mpr fun sibling _ => ?_
        rw [depth_under, depth_under, hone]
        exact Nat.succ_le_succ sibling.one_le_depth

/-- The first row of a block stands rightly before the rows under it. -/
theorem first {first : Row} {rest : List Row} (hfirst : first.depth = 1)
    (hrest : Continues first.mark rest) (inner : List Row) :
    first.Stands [] (inner.map (Row.under first.mark.childIndent) ++ rest) := by
  have hpasses : ∀ deeper ∈ inner.map (Row.under first.mark.childIndent),
      deeper.Passes first.depth first.mark.childIndent := by
    rw [hfirst]
    exact List.forall_mem_map.mpr fun row _ => passes_under _ row
  refine ⟨fun hmark => ?_, fun hmark => ?_, fun hdepth => ?_⟩
  · rw [hmark] at hrest hpasses ⊢
    obtain ⟨next, more, rfl, hnext⟩ := hrest
    exact ⟨_, next, more, rfl, hpasses, hnext.trans hfirst.symm⟩
  · rw [hmark] at hrest hpasses ⊢
    obtain rfl : rest = [] := hrest
    exact ⟨_, [], rfl, hpasses, fun next hnone => nomatch hnone⟩
  · rw [hfirst] at hdepth
    exact absurd hdepth (by decide)

end Stands

namespace Coherent

theorem nil : Coherent [] := by
  intro before row after hsplit
  exact absurd hsplit (by simp)

/-- **BLOCKS**: a row of the first depth, coherent rows put under its indent,
    and the coherent rows that may come after these are coherent together. -/
theorem block {first : Row} {inner rest : List Row} (hfirst : first.depth = 1)
    (hdir : inner ≠ [] → first.EndsInSlash) (hinner : Coherent inner)
    (hrest : Coherent rest) (hcontinues : Continues first.mark rest) :
    Coherent (first :: (inner.map (under first.mark.childIndent) ++ rest)) := by
  intro before row after hsplit
  cases before with
  | nil =>
      obtain ⟨rfl, rfl⟩ := List.cons.inj hsplit
      exact .first hfirst hcontinues inner
  | cons other before =>
      obtain ⟨rfl, htail⟩ := List.cons.inj hsplit
      rcases split_of_append_eq htail with ⟨skipped, rfl, hlater⟩ | ⟨skipped, hblock, rfl⟩
      · -- the row comes after the block
        exact (hrest skipped row after hlater).behind (first :: _)
      · -- the row is one of those under the first
        obtain ⟨earlier, own, rfl, rfl, hown⟩ := List.map_eq_append_iff.mp hblock
        obtain ⟨source, later, rfl, rfl, rfl⟩ := List.map_eq_cons_iff.mp hown
        have hstands := (hinner earlier source later rfl).under hfirst (hdir (by simp))
          first.mark.childIndent
        refine hstands.ahead fun next hnext => ?_
        rw [hcontinues.depth_head next hnext]
        exact Nat.succ_lt_succ source.one_le_depth

end Coherent

/-! ## Where a cell comes from -/

/-- The row that a cell goes back to is above it, with only deeper rows in
    between. -/
theorem Coherent.exists_above {rows : List Row} (h : Coherent rows) {depth : Nat} (hone : 1 ≤ depth)
    {levels : Nat} : ∀ {before : List Row} {row : Row} {after : List Row},
      rows = before ++ row :: after → row.depth = depth + 1 + levels →
      ∃ earlier owner between, before = earlier ++ owner :: between ∧ owner.depth = depth ∧
        ∀ deeper ∈ between, depth < deeper.depth := by
  -- on the levels between the two, up from the row to what it hangs from
  induction levels with
  | zero =>
      intro before row after hsplit hdepth
      obtain ⟨earlier, parent, between, hbefore, hparent, -, hbetween⟩ :=
        (h before row after hsplit).parent (by omega)
      refine ⟨earlier, parent, between, hbefore, by omega, fun deeper hmem => ?_⟩
      have := hbetween deeper hmem
      omega
  | succ levels ih =>
      intro before row after hsplit hdepth
      obtain ⟨earlier, parent, between, rfl, hparent, -, hbetween⟩ :=
        (h before row after hsplit).parent (by omega)
      have hsplit' : rows = earlier ++ parent :: (between ++ row :: after) := by
        rw [hsplit, List.append_assoc, List.cons_append]
      obtain ⟨first, owner, inner, rfl, howner, hinner⟩ := ih hsplit' (by omega)
      refine ⟨first, owner, inner ++ parent :: between, by simp, howner, ?_⟩
      refine List.forall_mem_append.mpr ⟨hinner, List.forall_mem_cons.mpr ⟨by omega, ?_⟩⟩
      intro deeper hmem
      have := hbetween deeper hmem
      omega

/-- That the bar at a depth of a row between others joins two siblings: it
    comes down unbroken from a tee at that depth, and goes on unbroken to the
    next row of that depth. -/
def Joins (before after : List Row) (depth : Nat) : Prop :=
  ∃ earlier top between inner bottom later,
    before = earlier ++ top :: between ∧ after = inner ++ bottom :: later ∧
    top.depth = depth ∧ top.mark = .tee ∧ bottom.depth = depth ∧
    ∀ deeper ∈ between ++ inner, deeper.Passes depth "│   "

/-- Deeper rows are not where rows that are no deeper begin. -/
theorem exists_inner {depth : Nat} {deep rest between after : List Row} {row : Row}
    (hsplit : deep ++ rest = between ++ row :: after)
    (hrest : ∀ next ∈ rest.head?, next.depth ≤ depth)
    (hbetween : ∀ deeper ∈ between, depth < deeper.depth) (hrow : depth < row.depth) :
    ∃ inner, deep = between ++ row :: inner ∧ after = inner ++ rest := by
  rcases split_of_append_eq hsplit with ⟨skipped, rfl, rfl⟩ | hinner
  · cases skipped with
    | nil => exact absurd hrow (Nat.not_lt.mpr (hrest row rfl))
    | cons next skipped =>
        have hnext := hbetween next (by simp)
        exact absurd hnext (Nat.not_lt.mpr (hrest next rfl))
  · exact hinner

/-- **BARS**: where rows are coherent, every bar joins a tee to that tee's
    next sibling. -/
theorem Coherent.joins {rows before after : List Row} {row : Row} {depth : Nat}
    (h : Coherent rows) (hsplit : rows = before ++ row :: after) (hone : 1 ≤ depth)
    (hdepth : depth < row.depth) (hcell : row.cell? depth = some "│   ") :
    Joins before after depth := by
  obtain ⟨levels, hlevels⟩ := Nat.exists_eq_add_of_le (Nat.succ_le_of_lt hdepth)
  obtain ⟨earlier, top, between, rfl, htop, hbetween⟩ := h.exists_above hone hsplit hlevels
  have hstands := h earlier top (between ++ row :: after) (by rw [hsplit]; simp)
  cases hmark : top.mark with
  | tee =>
      obtain ⟨deep, bottom, later, hafter, hdeep, hbottom⟩ := hstands.tee hmark
      have hhead : ∀ next ∈ (bottom :: later).head?, next.depth ≤ depth := by
        rintro _ ⟨⟩
        exact Nat.le_of_eq (hbottom.trans htop)
      obtain ⟨inner, rfl, rfl⟩ := exists_inner hafter.symm hhead hbetween hdepth
      rw [htop] at hdeep
      obtain ⟨hfirst, hsecond⟩ := List.forall_mem_append.mp hdeep
      exact ⟨earlier, top, between, inner, bottom, later, rfl, rfl, htop, hmark,
        hbottom.trans htop,
        List.forall_mem_append.mpr ⟨hfirst, (List.forall_mem_cons.mp hsecond).2⟩⟩
  | corner =>
      -- the row would be blank there
      obtain ⟨deep, rest, hafter, hdeep, hrest⟩ := hstands.corner hmark
      rw [htop] at hdeep hrest
      obtain ⟨inner, rfl, rfl⟩ := exists_inner hafter.symm
        (fun next hnext => Nat.le_of_lt (hrest next hnext)) hbetween hdepth
      have hblank := (hdeep row (by simp)).2
      exact absurd (hcell.symm.trans hblank) (by decide)

end Row

/-! ## The rows of trails -/

/-- The row of a spot that has nothing above it. -/
def Spot.row (spot : Spot) : Row :=
  ⟨[], spot.connector, spot.entry.displayName⟩

namespace Trail

/-- The row of a trail's last entry; the empty trail has none. -/
def row? (trail : Trail) : Option Row :=
  trail.getLast?.map fun spot =>
    ⟨trail.dropLast.map Spot.segment, spot.connector, spot.entry.displayName⟩

theorem row?_singleton (spot : Spot) : row? [spot] = some spot.row := rfl

/-- Behind a spot a row has the spot's indent for its first cell. -/
theorem row?_cons {trail : Trail} (h : trail ≠ []) (spot : Spot) :
    row? (spot :: trail) = (row? trail).map (Row.under spot.connector.childIndent) := by
  obtain ⟨next, rest, rfl⟩ := List.exists_cons_of_ne_nil h
  rw [Spot.childIndent_connector, row?, row?, Option.map_map]
  rfl

/-- A trail that goes anywhere has a row, which is its line cut into as many
    cells as there are spots. -/
theorem exists_row? {trail : Trail} (hne : trail ≠ []) :
    ∃ row, row? trail = some row ∧ trail.content = row.line ∧ row.depth = trail.length := by
  obtain ⟨above, spot, rfl⟩ := (List.eq_nil_or_concat trail).resolve_left hne
  rw [List.concat_eq_append, row?, content, List.getLast?_concat, List.dropLast_concat]
  refine ⟨_, rfl, ?_, ?_⟩
  · simp [Row.line, Row.cells, indent, Spot.glyph_connector]
  · simp [Row.depth, Row.cells]

/-- The rows below a spot, not yet put under its indent. -/
def rowsBelow (below : Path → List Trail) (spot : Spot) : List Row :=
  if spot.entry.isDirectory then (below spot.entry.path).filterMap row? else []

variable {below : Path → List Trail}

theorem filterMap_row?_through (hne : ∀ path, ∀ trail ∈ below path, trail ≠ []) (spot : Spot) :
    (through below spot).filterMap row? =
      spot.row :: (rowsBelow below spot).map (Row.under spot.connector.childIndent) := by
  rw [through, rowsBelow, List.filterMap_cons_some (row?_singleton spot)]
  split
  · rw [List.filterMap_map, List.map_filterMap]
    refine congrArg _ (List.filterMap_congr fun trail htrail => ?_)
    exact row?_cons (hne _ trail htrail) spot
  · rfl

/-- The rows of a listing are the block of its first entry and the rows of
    the others. -/
theorem filterMap_row?_onward (hne : ∀ path, ∀ trail ∈ below path, trail ≠ [])
    (passed : List Entry) (entry : Entry) (rest : List Entry) :
    ((Spot.onward passed (entry :: rest)).flatMap (through below)).filterMap row? =
      let spot : Spot := ⟨passed, entry, rest⟩
      spot.row :: ((rowsBelow below spot).map (Row.under spot.connector.childIndent) ++
        ((Spot.onward (passed ++ [entry]) rest).flatMap (through below)).filterMap row?) := by
  rw [Spot.onward, List.flatMap_cons, List.filterMap_append, filterMap_row?_through hne]
  rfl

/-- A directory's row is seen to be one. -/
theorem endsInSlash_row {spot : Spot} (h : spot.entry.isDirectory = true) :
    spot.row.EndsInSlash := by
  show (String.join [spot.connector.glyph] ++ spot.entry.displayName).toList.getLast? = some '/'
  rw [Entry.displayName_eq, if_pos h, String.toList_append, String.toList_append,
    ← List.append_assoc]
  exact List.getLast?_concat

/-- **SIBLINGS**: the rows of a listing are coherent if those below each of
    its directories are. -/
theorem coherent_onward (hne : ∀ path, ∀ trail ∈ below path, trail ≠ [])
    (hbelow : ∀ path, Row.Coherent ((below path).filterMap row?)) (entries : List Entry) :
    ∀ passed : List Entry,
      Row.Coherent (((Spot.onward passed entries).flatMap (through below)).filterMap row?) := by
  induction entries with
  | nil => intro passed; exact Row.Coherent.nil
  | cons entry rest ih =>
      intro passed
      rw [filterMap_row?_onward hne]
      refine Row.Coherent.block rfl ?_ ?_ (ih _) ?_
      · -- only a directory has rows below it
        intro hinner
        by_cases hdir : entry.isDirectory = true
        · exact endsInSlash_row hdir
        · exact absurd (if_neg hdir) hinner
      · rw [rowsBelow]
        split
        · exact hbelow _
        · exact Row.Coherent.nil
      · cases rest with
        | nil => rfl
        | cons next more => exact ⟨_, _, filterMap_row?_onward hne _ next more, rfl⟩

end Trail

/-- So the rows of a directory's trails are coherent, however deep. -/
theorem Lister.coherent_rows (list : Lister) (depth : Nat) :
    ∀ dir : Path, Row.Coherent ((list.trails depth dir).filterMap Trail.row?) := by
  induction depth with
  | zero => intro dir; exact Row.Coherent.nil
  | succ depth ih =>
      intro dir
      cases hlist : list dir with
      | error e => rw [trails_of_error hlist]; exact Row.Coherent.nil
      | ok listing =>
          rw [trails_of_ok hlist]
          exact Trail.coherent_onward (fun _ _ => ne_nil_of_mem_trails) ih _ []

/-! ## Reading them off the text -/

namespace Row

theorem read?_segment (spot : Spot) (rest : List Char) :
    read? (spot.segment.toList ++ rest) = (read? rest).map (under spot.segment) := by
  rw [Spot.segment]
  cases spot.isLast with
  | true => rfl
  | false => rfl

theorem read?_mark (spot : Spot) (text : List Char) :
    read? (spot.mark.toList ++ text) = some ⟨[], spot.connector, String.ofList text⟩ := by
  rw [Spot.mark, Spot.connector]
  cases spot.isLast with
  | true => rfl
  | false => rfl

/-- Behind an indent a mark is read with the indent's cells above it. -/
theorem read?_indent (above : Trail) (spot : Spot) (text : List Char) :
    read? ((Trail.indent above).toList ++ (spot.mark.toList ++ text)) =
      some ⟨above.map Spot.segment, spot.connector, String.ofList text⟩ := by
  induction above with
  | nil => exact read?_mark spot text
  | cons first rest ih =>
      rw [Trail.indent, List.map_cons, String.join_cons, String.toList_append, List.append_assoc,
        read?_segment]
      exact congrArg (Option.map (under first.segment)) ih

/-- A line is cut into its entry's row. -/
theorem read?_content {trail : Trail} (hne : trail ≠ []) :
    read? trail.content.toList = trail.row? := by
  obtain ⟨above, spot, rfl⟩ := (List.eq_nil_or_concat trail).resolve_left hne
  rw [List.concat_eq_append, Trail.content, Trail.row?, List.getLast?_concat, List.dropLast_concat]
  show read? (Trail.indent above ++ spot.mark ++ spot.entry.displayName).toList = some _
  rw [String.toList_append, String.toList_append, List.append_assoc, read?_indent,
    String.ofList_toList]

theorem mapM_read?_contents {trails : List Trail} (hne : ∀ trail ∈ trails, trail ≠ []) :
    (trails.map fun trail => Text.encode trail.content).mapM readLine? =
      some (trails.filterMap Trail.row?) := by
  induction trails with
  | nil => rfl
  | cons trail rest ih =>
      obtain ⟨htrail, hrest⟩ := List.forall_mem_cons.mp hne
      obtain ⟨row, hrow, -⟩ := Trail.exists_row? htrail
      rw [List.map_cons, List.mapM_cons, readLine?, Text.decode?_encode, Option.bind_some,
        read?_content htrail, hrow, ih hrest, List.filterMap_cons_some hrow]
      rfl

/-- **CUTTING**: lines whose names have no newlines are cut into their
    entries' rows. -/
theorem readAll?_lines {trails : List Trail} (hne : ∀ trail ∈ trails, trail ≠ [])
    (hnewlines : ∀ trail ∈ trails, trail.newlines = 0) :
    readAll? (Trail.lines trails) = some (trails.filterMap Trail.row?) := by
  rw [readAll?, Trail.splitOn_lines hne hnewlines, List.dropLast_concat, mapM_read?_contents hne]

end Row

/-- The rows of trails are their lines, and have as many cells as their
    entries are deep. -/
theorem Trail.filterMap_row? {trails : List Trail} (hne : ∀ trail ∈ trails, trail ≠ []) :
    lines trails = Row.lines (trails.filterMap row?) ∧
      (trails.filterMap row?).map Row.depth = trails.map List.length := by
  induction trails with
  | nil => exact ⟨rfl, rfl⟩
  | cons trail rest ih =>
      obtain ⟨htrail, hrest⟩ := List.forall_mem_cons.mp hne
      obtain ⟨row, hrow, hline, hdepth⟩ := exists_row? htrail
      obtain ⟨hlines, hdepths⟩ := ih hrest
      rw [List.filterMap_cons_some hrow, lines_cons, line_eq_content htrail, hline, hlines,
        List.map_cons, List.map_cons, hdepth, hdepths]
      exact ⟨rfl, rfl⟩

/-- **NO BAR IS BROKEN**: a drawing that succeeds and prints no newline within
    a name is cut into rows, of as many cells each as its entry is deep.
    Every row stands rightly among the others; so each bar comes down from a
    tee and goes on to that tee's next sibling, with nothing but the same bar
    in between. -/
theorem render_rows_coherent {files : FileSystem} {maxLevel : Nat} {root : Path} {sink : Sink}
    {stats : Stats} {trails : List Trail} (horder : PreOrder files.list maxLevel root trails)
    (hok : (render files.list maxLevel root sink).result = .ok stats)
    (hnewlines : ∀ trail ∈ trails, trail.newlines = 0) :
    ∃ rows, (render files.list maxLevel root sink).sink.held = sink.held ++ Row.lines rows ∧
      Row.readAll? (Row.lines rows) = some rows ∧
      rows.map Row.depth = trails.map List.length ∧
      Row.Coherent rows ∧
      ∀ before row after depth, rows = before ++ row :: after → 1 ≤ depth → depth < row.depth →
        row.cell? depth = some "│   " → Row.Joins before after depth := by
  obtain rfl := horder.unique (Lister.preOrder_trails files.list maxLevel root)
  have hne : ∀ trail ∈ Lister.trails files.list maxLevel root, trail ≠ [] :=
    fun _ => Lister.ne_nil_of_mem_trails
  have hcoherent := Lister.coherent_rows files.list maxLevel root
  obtain ⟨hlines, hdepths⟩ := Trail.filterMap_row? hne
  refine ⟨_, ?_, ?_, hdepths, hcoherent, ?_⟩
  · rw [held_of_isOk hok, hlines]
  · rw [← hlines, Row.readAll?_lines hne hnewlines]
  · intro before row after depth hsplit hone hdepth hcell
    exact hcoherent.joins hsplit hone hdepth hcell

/-- A directory with one that is cut at the third level and one that is empty,
    and after it a directory with a file. -/
def branchedTree : FileSystem :=
  ⟨.directory .granted
    [([0x61], .directory .granted
        [([0x62], .directory .granted [([0x63], .directory .granted [([0x78], .file)])]),
          ([0x64], .directory .granted [])]),
      ([0x65], .directory .granted [([0x66], .file)])], [], rfl⟩

/-- Its rows down to the third level. -/
def branchedRows : List Row :=
  [⟨[], .tee, "a/"⟩, ⟨["│   "], .tee, "b/"⟩, ⟨["│   ", "│   "], .corner, "c/"⟩,
    ⟨["│   "], .corner, "d/"⟩, ⟨[], .corner, "e/"⟩, ⟨["    "], .corner, "f"⟩]

theorem render_rows_coherent_branched :
    (render branchedTree.list 3 [0x2E] .unlimited).result = .ok ⟨5, 1⟩ ∧
      (∀ trail ∈ Lister.trails branchedTree.list 3 [0x2E], trail.newlines = 0) ∧
      (render branchedTree.list 3 [0x2E] .unlimited).sink.held =
        Text.encode "├── a/\n│   ├── b/\n│   │   └── c/\n│   └── d/\n└── e/\n    └── f\n" ∧
      Row.readAll? (render branchedTree.list 3 [0x2E] .unlimited).sink.held = some branchedRows ∧
      Row.Coherent branchedRows ∧
      Row.Joins (branchedRows.take 2) (branchedRows.drop 3) 1 := by
  have hok : (render branchedTree.list 3 [0x2E] .unlimited).result = .ok ⟨5, 1⟩ := by cbv
  have horder := Lister.preOrder_trails branchedTree.list 3 [0x2E]
  have hcounts : (Lister.trails branchedTree.list 3 [0x2E]).map Trail.newlines =
      [0, 0, 0, 0, 0, 0] := by cbv
  have hnone : ∀ count ∈ (Lister.trails branchedTree.list 3 [0x2E]).map Trail.newlines,
      count = 0 := by rw [hcounts]; decide
  have hnewlines := List.forall_mem_map.mp hnone
  have htext : (render branchedTree.list 3 [0x2E] .unlimited).sink.held =
      Text.encode "├── a/\n│   ├── b/\n│   │   └── c/\n│   └── d/\n└── e/\n    └── f\n" := by cbv
  have hread : Row.readAll? (render branchedTree.list 3 [0x2E] .unlimited).sink.held =
      some branchedRows := by rw [htext]; cbv
  obtain ⟨rows, hheld, hrows, -, hcoherent, hjoins⟩ := render_rows_coherent horder hok hnewlines
  have hsame : some branchedRows = some rows := by
    rw [← hread, hheld]
    exact hrows
  obtain rfl := Option.some.inj hsame
  exact ⟨hok, hnewlines, htext, hread, hcoherent,
    hjoins _ ⟨["│   ", "│   "], .corner, "c/"⟩ _ 1 rfl (by decide) (by decide) rfl⟩

end TreeSketch
