import TreeSketch.Proofs.Output

/-! # Drawing into a sink with limited room

    Every drawing has an effect (`exists_hasEffect_drawTree`), so into a
    sink with limited room it writes what one write of its whole text
    would: as much as fits.  `render_filled` compares it with the same
    drawing into a sink that takes everything, and then several drawings
    into one sink with the texts they would have written. -/

namespace TreeSketch

namespace Sink

/-- A sink of a capacity that holds some bytes already. -/
def filled (capacity : Nat) (failure : Cause) (held : Bytes) : Sink :=
  ⟨held.reverse, some (capacity - held.length), failure⟩

@[simp]
theorem held_filled (capacity : Nat) (failure : Cause) (held : Bytes) :
    (filled capacity failure held).held = held :=
  List.reverse_reverse held

theorem push_filled (capacity : Nat) (failure : Cause) (held bytes : Bytes) :
    ((filled capacity failure held).push bytes).newest = (held ++ bytes).reverse := by
  rw [push, List.reverseAux_eq, List.reverse_append]
  rfl

/-- What fits is held whole. -/
theorem write_filled_of_fits {capacity : Nat} (failure : Cause) {held bytes : Bytes}
    (h : held.length + bytes.length ≤ capacity) :
    (filled capacity failure held).write bytes = (filled capacity failure (held ++ bytes), none) := by
  have hfits : bytes.length ≤ capacity - held.length := by omega
  rw [write_of_fits rfl hfits]
  show (Sink.mk ((filled capacity failure held).push bytes).newest _ failure, none) = _
  rw [push_filled, filled, List.length_append, Nat.sub_sub]

/-- What exceeds is held up to the capacity. -/
theorem write_filled_of_exceeds {capacity : Nat} (failure : Cause) {held bytes : Bytes}
    (hheld : held.length ≤ capacity) (h : capacity < held.length + bytes.length) :
    (filled capacity failure held).write bytes =
      (filled capacity failure ((held ++ bytes).take capacity), some failure) := by
  have hexceeds : capacity - held.length < bytes.length := by omega
  have htake : held ++ bytes.take (capacity - held.length) = (held ++ bytes).take capacity := by
    rw [List.take_append, List.take_of_length_le hheld]
  have hfull : capacity - ((held ++ bytes).take capacity).length = 0 := by
    rw [List.length_take, List.length_append]
    omega
  rw [write_of_exceeds rfl hexceeds]
  show (Sink.mk ((filled capacity failure held).push _).newest _ failure, some failure) = _
  rw [push_filled, htake, filled, hfull]

end Sink

/-- Every drawing has an effect. -/
theorem exists_hasEffect_drawTree (list : Lister) (maxLevel : Nat) (root : Path) :
    ∃ effect, (Walk.drawTree list maxLevel root).HasEffect .zero effect := by
  rcases Trail.clear_or_blocked list root maxLevel ([] :: list.trails maxLevel root) with
    hclear | ⟨before, trail, after, e, hsplit, hbefore, htrail⟩
  · exact ⟨_, Walk.hasEffect_drawTree_of_clear hclear⟩
  · exact ⟨_, Walk.hasEffect_drawTree_of_blocked hsplit hbefore htrail⟩

/-- A drawing leaves a sink with limited room filled with what one write of
    the whole text leaves in it, has its own result if that fits and the
    sink's failure if not, and has listed no other directories. -/
theorem render_filled_eq (list : Lister) (maxLevel : Nat) (root : Path) {capacity : Nat}
    (failure : Cause) {held : Bytes} (hheld : held.length ≤ capacity) :
    (render list maxLevel root (.filled capacity failure held)).sink =
        .filled capacity failure
          ((held ++ (render list maxLevel root .unlimited).sink.held).take capacity) ∧
      (render list maxLevel root (.filled capacity failure held)).result =
        (if held.length + (render list maxLevel root .unlimited).sink.held.length ≤ capacity then
          (render list maxLevel root .unlimited).result else .error (.io failure)) ∧
      (render list maxLevel root (.filled capacity failure held)).listed <+:
        (render list maxLevel root .unlimited).listed := by
  obtain ⟨effect, heffect⟩ := exists_hasEffect_drawTree list maxLevel root
  have hbytes : (Sink.unlimited.push effect.bytes).held = effect.bytes := Sink.held_push _ _
  rw [render_unlimited heffect, hbytes]
  by_cases hfits : held.length + effect.bytes.length ≤ capacity
  · rw [render_of_fits heffect (Sink.write_filled_of_fits failure hfits), if_pos hfits]
    refine ⟨?_, rfl, List.prefix_rfl⟩
    rw [List.take_of_length_le (by rw [List.length_append]; exact hfits)]
  · have hwrite := Sink.write_filled_of_exceeds failure hheld (Nat.not_le.mp hfits)
    obtain ⟨told, htold, hrender⟩ := render_of_fails heffect hwrite
    rw [hrender, if_neg hfits]
    refine ⟨rfl, rfl, ?_⟩
    -- the sink's failure names no directory, so only the events told count
    show told.filterMap Event.listed? ++ [] <+: _
    rw [List.append_nil]
    exact (htold.filterMap _).trans (List.prefix_append _ _)

/-- A drawing to be made: of a file system, down to a level, from a root. -/
structure Sketch where
  files : FileSystem
  maxLevel : Nat
  root : Path

namespace Sketch

/-- Draws into a sink. -/
def onto (sketch : Sketch) (sink : Sink) : Rendering Sink :=
  render sketch.files.list sketch.maxLevel sketch.root sink

/-- The text of a drawing that nothing limits. -/
def text (sketch : Sketch) : Bytes :=
  (sketch.onto .unlimited).sink.held

end Sketch

/-- Makes drawings one after another into one sink. -/
def Sink.drawAll (sink : Sink) (sketches : List Sketch) : Sink :=
  sketches.foldl (fun sink sketch => (sketch.onto sink).sink) sink

/-- What is cut off twice is cut off once. -/
theorem Sink.take_take_append (capacity : Nat) (a b : Bytes) :
    (a.take capacity ++ b).take capacity = (a ++ b).take capacity := by
  have hleft : capacity - min capacity a.length = capacity - a.length := by omega
  rw [List.take_append, List.take_append, List.take_take, Nat.min_self, List.length_take, hleft]

/-- Several drawings leave what their texts in a row leave. -/
theorem Sink.drawAll_filled {capacity : Nat} (failure : Cause) (sketches : List Sketch) :
    ∀ {held : Bytes}, held.length ≤ capacity →
      (filled capacity failure held).drawAll sketches =
        filled capacity failure ((held ++ sketches.flatMap Sketch.text).take capacity) := by
  -- a drawing leaves the sink `filled` again, so the bytes held before it may be any
  induction sketches with
  | nil =>
      intro held hheld
      rw [List.flatMap_nil, List.append_nil, List.take_of_length_le hheld]
      rfl
  | cons sketch rest ih =>
      intro held hheld
      have hfirst : (sketch.onto (filled capacity failure held)).sink =
          filled capacity failure ((held ++ sketch.text).take capacity) :=
        (render_filled_eq sketch.files.list sketch.maxLevel sketch.root failure hheld).1
      have hroom : ((held ++ sketch.text).take capacity).length ≤ capacity :=
        List.length_take_le _ _
      rw [drawAll, List.foldl_cons, hfirst]
      show (filled capacity failure _).drawAll rest = _
      rw [ih hroom, take_take_append, List.flatMap_cons, List.append_assoc]

/-- **LIMITED ROOM**: into a sink of some capacity that holds some bytes, a
    drawing writes what the unlimited drawing writes, up to the capacity.
    It has the unlimited drawing's result if all of it fits, and the sink's
    own failure if not, also where the unlimited drawing fails; and it
    tries a beginning of the same directories.  So drawings made one after
    another leave the beginning of their texts in a row. -/
theorem render_filled {capacity : Nat} (failure : Cause) {held : Bytes}
    (hheld : held.length ≤ capacity) :
    (∀ (files : FileSystem) (maxLevel : Nat) (root : Path),
      let free := render files.list maxLevel root .unlimited
      let run := render files.list maxLevel root (.filled capacity failure held)
      run.sink.held = (held ++ free.sink.held).take capacity ∧
        (held.length + free.sink.held.length ≤ capacity → run.result = free.result) ∧
        (capacity < held.length + free.sink.held.length → run.result = .error (.io failure)) ∧
        run.listed <+: free.listed) ∧
      ∀ sketches : List Sketch,
        ((Sink.filled capacity failure held).drawAll sketches).held =
          (held ++ sketches.flatMap Sketch.text).take capacity := by
  constructor
  · intro files maxLevel root free run
    obtain ⟨hsink, hresult, hlisted⟩ := render_filled_eq files.list maxLevel root failure hheld
    refine ⟨?_, ?_, ?_, hlisted⟩
    · rw [hsink, Sink.held_filled]
    · intro hfits
      exact hresult.trans (if_pos hfits)
    · intro hexceeds
      exact hresult.trans (if_neg (Nat.not_le.mpr hexceeds))
  · intro sketches
    rw [Sink.drawAll_filled failure sketches hheld, Sink.held_filled]

/-- The room ends inside the first connector of the tree. -/
theorem render_filled_sample :
    (render sampleTree.list 2 [0x2E] (.filled 5 .readerGone [0x21])).sink.held =
        [0x21, 0xE2, 0x94, 0x9C, 0xE2] ∧
      (render sampleTree.list 2 [0x2E] (.filled 5 .readerGone [0x21])).result =
        .error (.io .readerGone) := by
  have hheld : ([0x21] : Bytes).length ≤ 5 := by decide
  obtain ⟨hheld', -, hexceeds, -⟩ := (render_filled .readerGone hheld).1 sampleTree 2 [0x2E]
  exact ⟨hheld'.trans (by cbv), hexceeds (by cbv)⟩

end TreeSketch
