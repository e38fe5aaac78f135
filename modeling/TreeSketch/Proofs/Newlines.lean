import TreeSketch.Proofs.ReadBack

/-! # How many lines there are

    A name is printed as it is, so a newline within it breaks the entry's
    line in two.  A drawing that succeeds has a newline for every entry and
    one more for every newline within a printed name (`count_held`); without
    any of the latter it comes apart at its newlines into one line for each
    entry, in order (`splitOn_lines`), and only then are there as many lines
    as entries.  `render_newlines` says so, and
    `not_one_line_per_entry` that one name is enough to have more. -/

namespace TreeSketch

namespace Text

/-- The byte of a newline. -/
def newline : UInt8 := 0x0A

theorem ne_newline {b : UInt8} (h : 0x80 ≤ b.toNat) : newline ≠ b := by
  rintro rfl
  exact absurd h (by decide)

theorem newline_not_mem_tailBytes (v n : Nat) : newline ∉ tailBytes v n := by
  induction n with
  | zero => exact List.not_mem_nil
  | succ n ih =>
      refine List.not_mem_cons_of_ne_of_not_mem (ne_newline ?_) ih
      rw [toNat_tailByte]
      omega

theorem count_newline_longer {b : UInt8} (h : 0x80 ≤ b.toNat) (v n : Nat) :
    (b :: tailBytes v n).count newline = 0 :=
  List.count_eq_zero.mpr
    (List.not_mem_cons_of_ne_of_not_mem (ne_newline h) (newline_not_mem_tailBytes v n))

/-- Of all characters only the newline has its byte. -/
theorem count_newline_encodeChar (c : Char) :
    (encodeChar c).count newline = if c = '\n' then 1 else 0 := by
  by_cases hc : c = '\n'
  · subst hc
    rfl
  have hvalid : c.toNat < 0xD800 ∨ 0xDFFF < c.toNat ∧ c.toNat < 0x110000 := c.valid
  have hnumber : c.toNat ≠ 0x0A := fun h => hc (Char.toNat_inj.mp h)
  rw [if_neg hc, encodeChar_eq]
  split
  · next hone =>
      have hbyte := toNat_ofNat_of_lt (n := c.toNat) (by omega)
      refine List.count_eq_zero.mpr fun hmem => hnumber ?_
      rw [← hbyte, ← List.mem_singleton.mp hmem]
      rfl
  split
  · exact count_newline_longer (by rw [toNat_ofNat_of_lt (by omega)]; omega) _ _
  split
  · exact count_newline_longer (by rw [toNat_ofNat_of_lt (by omega)]; omega) _ _
  · exact count_newline_longer (by rw [toNat_ofNat_of_lt (by omega)]; omega) _ _

/-- A text has as many newlines as its bytes have. -/
theorem count_newline_encode (text : String) :
    (encode text).count newline = text.toList.count '\n' := by
  rw [encode]
  induction text.toList with
  | nil => rfl
  | cons c rest ih =>
      rw [List.flatMap_cons, List.count_append, ih, count_newline_encodeChar, List.count_cons,
        Nat.add_comm]
      simp

end Text

namespace Trail

/-- The line of a trail's last entry, up to its newline. -/
def content (trail : Trail) : String :=
  match trail.getLast? with
  | none => ""
  | some spot => indent trail.dropLast ++ spot.mark ++ spot.entry.displayName

/-- The number of newlines within the name of a trail's last entry. -/
def newlines (trail : Trail) : Nat :=
  match trail.getLast? with
  | none => 0
  | some spot => spot.entry.name.toList.count '\n'

theorem line_eq_content {trail : Trail} (hne : trail ≠ []) : line trail = content trail ++ "\n" := by
  obtain ⟨above, spot, rfl⟩ := (List.eq_nil_or_concat trail).resolve_left hne
  rw [List.concat_eq_append, line_concat, content, List.getLast?_concat, List.dropLast_concat]

theorem newline_not_mem_indent (trail : Trail) : '\n' ∉ (indent trail).toList := by
  rw [indent, String.toList_join, List.mem_flatMap]
  rintro ⟨segment, hsegment, hnewline⟩
  obtain ⟨spot, -, rfl⟩ := List.mem_map.mp hsegment
  exact newline_not_mem_segment spot hnewline

/-- The newlines before a line's own are those of the name. -/
theorem count_content (trail : Trail) : (content trail).toList.count '\n' = newlines trail := by
  rw [content, newlines]
  cases trail.getLast? with
  | none => rfl
  | some spot =>
      have hindent := List.count_eq_zero.mpr (newline_not_mem_indent trail.dropLast)
      have hmark := List.count_eq_zero.mpr (newline_not_mem_mark spot)
      have hslash : "/".toList.count '\n' = 0 := by decide
      dsimp only
      rw [String.toList_append, String.toList_append, List.count_append, List.count_append, hindent,
        hmark, Entry.displayName_eq]
      split
      · rw [String.toList_append, List.count_append, hslash, Nat.zero_add, Nat.add_zero]
      · rw [Nat.zero_add]

theorem encode_line {trail : Trail} (hne : trail ≠ []) :
    Text.encode (line trail) = Text.encode (content trail) ++ [Text.newline] := by
  rw [line_eq_content hne, Text.encode_append]
  rfl

/-- **COUNTING NEWLINES**: lines have one each, and those of their names. -/
theorem count_lines {trails : List Trail} (hne : ∀ trail ∈ trails, trail ≠ []) :
    (lines trails).count Text.newline = trails.length + (trails.map newlines).sum := by
  induction trails with
  | nil => rfl
  | cons trail rest ih =>
      obtain ⟨htrail, hrest⟩ := List.forall_mem_cons.mp hne
      rw [lines_cons, List.count_append, ih hrest, encode_line htrail, List.count_append,
        Text.count_newline_encode, count_content, List.count_singleton_self, List.length_cons,
        List.map_cons, List.sum_cons]
      omega

theorem newline_not_mem_content {trail : Trail} (h : newlines trail = 0) :
    Text.newline ∉ Text.encode (content trail) := by
  rw [← List.count_eq_zero, Text.count_newline_encode, count_content]
  exact h

/-- **COMING APART**: lines whose names have no newlines come apart at their
    own. -/
theorem splitOn_lines {trails : List Trail} (hne : ∀ trail ∈ trails, trail ≠ [])
    (hnewlines : ∀ trail ∈ trails, newlines trail = 0) :
    (lines trails).splitOn Text.newline =
      (trails.map fun trail => Text.encode (content trail)) ++ [[]] := by
  induction trails with
  | nil => rfl
  | cons trail rest ih =>
      obtain ⟨htrail, hrest⟩ := List.forall_mem_cons.mp hne
      obtain ⟨hname, hnames⟩ := List.forall_mem_cons.mp hnewlines
      rw [lines_cons, encode_line htrail, List.append_assoc, List.singleton_append,
        List.splitOn_append_cons_self, List.splitOn_eq_singleton (newline_not_mem_content hname),
        ih hrest hnames, List.map_cons]
      rfl

end Trail

section Render

variable {files : FileSystem} {maxLevel : Nat} {root : Path} {stats : Stats} {trails : List Trail}

/-- A drawing that succeeds counts its trails. -/
theorem total_eq_length (h : (render files.list maxLevel root .unlimited).result = .ok stats) :
    stats.total = (Lister.trails files.list maxLevel root).length := by
  rw [result_eq_ok (result_isOk_iff.mp ⟨stats, h⟩)] at h
  rw [← Except.ok.inj h, Stats.total, List.length_eq_countP_add_countP Trail.isDirectory]
  simp

/-- **LINES AND ENTRIES**: a drawing that succeeds has a newline for every
    entry and one for every newline within a printed name.  So it has one
    line for each entry exactly if no printed name has a newline, and then
    it comes apart into these lines. -/
theorem render_newlines (horder : PreOrder files.list maxLevel root trails)
    (h : (render files.list maxLevel root .unlimited).result = .ok stats) :
    (render files.list maxLevel root .unlimited).sink.held.count Text.newline =
        stats.total + (trails.map Trail.newlines).sum ∧
      ((render files.list maxLevel root .unlimited).sink.held.count Text.newline = stats.total ↔
        ∀ trail ∈ trails, trail.newlines = 0) ∧
      ((∀ trail ∈ trails, trail.newlines = 0) →
        (render files.list maxLevel root .unlimited).sink.held.splitOn Text.newline =
          (trails.map fun trail => Text.encode trail.content) ++ [[]]) := by
  obtain rfl := horder.unique (Lister.preOrder_trails files.list maxLevel root)
  have hne : ∀ trail ∈ Lister.trails files.list maxLevel root, trail ≠ [] :=
    fun _ => Lister.ne_nil_of_mem_trails
  have hheld : (render files.list maxLevel root .unlimited).sink.held =
      Trail.lines (Lister.trails files.list maxLevel root) := held_of_isOk h
  rw [hheld, Trail.count_lines hne, total_eq_length h]
  refine ⟨rfl, ?_, Trail.splitOn_lines hne⟩
  rw [Nat.add_eq_left, List.sum_eq_zero_iff]
  exact List.forall_mem_map

end Render

/-- A directory with one file, whose name is a newline between two
    letters. -/
def brokenTree : FileSystem :=
  ⟨.directory .granted [([0x61, 0x0A, 0x62], .file)], [], rfl⟩

theorem render_newlines_broken :
    (render brokenTree.list 1 [0x2E] .unlimited).result = .ok ⟨0, 1⟩ ∧
      PreOrder brokenTree.list 1 [0x2E] (Lister.trails brokenTree.list 1 [0x2E]) ∧
      (Lister.trails brokenTree.list 1 [0x2E]).map Trail.newlines = [1] ∧
      (render brokenTree.list 1 [0x2E] .unlimited).sink.held.count Text.newline = 2 := by
  have hok : (render brokenTree.list 1 [0x2E] .unlimited).result = .ok ⟨0, 1⟩ := by cbv
  have horder := Lister.preOrder_trails brokenTree.list 1 [0x2E]
  have hnewlines : (Lister.trails brokenTree.list 1 [0x2E]).map Trail.newlines = [1] := by cbv
  refine ⟨hok, horder, hnewlines, ?_⟩
  obtain ⟨hcount, -⟩ := render_newlines horder hok
  rw [hcount, hnewlines]
  rfl

/-- So lines are not one for each entry in general. -/
theorem not_one_line_per_entry :
    ¬ ∀ (files : FileSystem) (maxLevel : Nat) (root : Path) (stats : Stats),
      (render files.list maxLevel root .unlimited).result = .ok stats →
      (render files.list maxLevel root .unlimited).sink.held.count Text.newline = stats.total := by
  intro h
  have hok : (render brokenTree.list 1 [0x2E] .unlimited).result = .ok ⟨0, 1⟩ := by cbv
  have hheld : (render brokenTree.list 1 [0x2E] .unlimited).sink.held =
      Text.encode "└── a\nb\n" := by cbv
  have hcount := h brokenTree 1 [0x2E] ⟨0, 1⟩ hok
  rw [hheld] at hcount
  exact absurd hcount (by decide)

end TreeSketch
