import TreeSketch.Proofs.Capacity
import TreeSketch.Proofs.Lockstep

/-! # What a drawing sees

    A drawing sees a file system only through the listings that it asks
    for, and it asks for those of the root and of the directories that it
    prints above its last level.  Two listers that answer these alike put
    the same in the way of the trails printed and the same trails below
    them (`Trail.next_eq_of_answer`), so the drawings stay in step: to the
    end, or to the line that the sink does not take.

    `render_eq_of_seen` is the result for any two listers and any sink, and
    `render_horizon` says it of file systems. -/

namespace TreeSketch

/-- What listing a directory answers: its entries, or why it cannot be
    listed. -/
def Lister.answer (list : Lister) (dir : Path) : Except Error (List Entry) :=
  (list dir).map Listing.entries

/-- The trails whose lines a sink takes whole, up to the first that it does
    not. -/
def Sink.fitting (sink : Sink) : List Trail → List Trail
  | [] => []
  | trail :: rest =>
    match sink.write (Text.encode trail.line) with
    | (next, none) => trail :: next.fitting rest
    | (_, some _) => []

/-- The trails whose lines a drawing prints into a sink. -/
def Lister.printed (list : Lister) (maxLevel : Nat) (root : Path) (sink : Sink) : List Trail :=
  sink.fitting (list.drawn maxLevel root)

/-! ## Printing into any sink -/

/-- A sink takes the fitting lines whole; after them either nothing is left
    or there is a line that it does not take. -/
theorem Sink.exists_write_fitting (trails : List Trail) :
    ∀ sink : Sink, ∃ next, sink.write (Trail.lines (sink.fitting trails)) = (next, none) ∧
      (sink.fitting trails = trails ∨
        ∃ cut rest full cause, trails = sink.fitting trails ++ cut :: rest ∧
          next.write (Text.encode cut.line) = (full, some cause)) := by
  induction trails with
  | nil => intro sink; exact ⟨sink, sink.write_nil, Or.inl rfl⟩
  | cons trail rest ih =>
      intro sink
      rw [fitting]
      cases hwrite : sink.write (Text.encode trail.line) with
      | mk middle failure =>
          cases failure with
          | some cause =>
              exact ⟨sink, sink.write_nil, Or.inr ⟨trail, rest, middle, cause, rfl, hwrite⟩⟩
          | none =>
              obtain ⟨next, hnext, hrest⟩ := ih middle
              refine ⟨next, ?_, ?_⟩
              · show sink.write (Trail.lines (trail :: middle.fitting rest)) = _
                rw [Trail.lines_cons, write_append hwrite, hnext]
              · rcases hrest with hall | ⟨cut, after, full, cause, hsplit, hcut⟩
                · exact Or.inl (congrArg (List.cons trail) hall)
                · exact Or.inr ⟨cut, after, full, cause, congrArg (List.cons trail) hsplit, hcut⟩

/-- Lines that begin alike, with one that the sink does not take, leave the
    same. -/
theorem Sink.write_lines_of_cut {sink next full : Sink} {cause : Cause} {printed : List Trail}
    {cut : Trail} (hfits : sink.write (Trail.lines printed) = (next, none))
    (hcut : next.write (Text.encode cut.line) = (full, some cause)) (rest : List Trail) :
    sink.write (Trail.lines (printed ++ cut :: rest)) = (full, some cause) := by
  rw [Trail.lines_append, write_append hfits, Trail.lines_cons, write_append_of_failed hcut]

/-- A drawing into a sink comes to what one write of the lines drawn comes
    to, and has its own result if that succeeds. -/
theorem render_eq_write (list : Lister) (maxLevel : Nat) (root : Path) {sink next : Sink}
    {failure : Option Cause}
    (h : sink.write (Trail.lines (list.drawn maxLevel root)) = (next, failure)) :
    (render list maxLevel root sink).sink = next ∧
      (render list maxLevel root sink).result =
        failure.elim (render list maxLevel root .unlimited).result fun cause => .error (.io cause) := by
  obtain ⟨effect, heffect⟩ := exists_hasEffect_drawTree list maxLevel root
  have hfree := render_unlimited heffect
  have hbytes : effect.bytes = Trail.lines (list.drawn maxLevel root) := by
    rw [← held_eq_lines_drawn, hfree, Sink.held_push]
    rfl
  rw [← hbytes] at h
  cases failure with
  | none =>
      rw [render_of_fits heffect h, hfree]
      exact ⟨rfl, rfl⟩
  | some cause =>
      obtain ⟨told, -, hrender⟩ := render_of_fails heffect h
      rw [hrender]
      exact ⟨rfl, rfl⟩

/-- A write leaves what the sink held and a beginning of the bytes, all of
    them if it does not fail. -/
theorem Sink.exists_held_of_write {sink next : Sink} {bytes : Bytes} {failure : Option Cause}
    (h : sink.write bytes = (next, failure)) :
    ∃ part, next.held = sink.held ++ part ∧ part <+: bytes ∧ (failure = none ↔ part = bytes) := by
  cases hroom : sink.room with
  | none =>
      rw [write_of_unlimited hroom] at h
      obtain ⟨rfl, rfl⟩ := Prod.mk.inj h
      exact ⟨bytes, held_push sink bytes, List.prefix_rfl, by simp⟩
  | some room =>
      by_cases hfits : bytes.length ≤ room
      · rw [write_of_fits hroom hfits] at h
        obtain ⟨rfl, rfl⟩ := Prod.mk.inj h
        exact ⟨bytes, held_push sink bytes, List.prefix_rfl, by simp⟩
      · have hexceeds := Nat.not_le.mp hfits
        rw [write_of_exceeds hroom hexceeds] at h
        obtain ⟨rfl, rfl⟩ := Prod.mk.inj h
        refine ⟨bytes.take room, held_push sink _, List.take_prefix room bytes, ?_⟩
        have hshort : bytes.take room ≠ bytes := fun heq => by
          have hlen := congrArg List.length heq
          rw [List.length_take] at hlen
          omega
        simp [hshort]

/-- A drawing that succeeds adds the lines of its whole pre-order, into
    whatever sink. -/
theorem held_of_isOk {list : Lister} {maxLevel : Nat} {root : Path} {sink : Sink} {stats : Stats}
    (h : (render list maxLevel root sink).result = .ok stats) :
    (render list maxLevel root sink).sink.held =
      sink.held ++ Trail.lines (list.trails maxLevel root) := by
  cases hwrite : sink.write (Trail.lines (list.drawn maxLevel root)) with
  | mk next failure =>
      obtain ⟨hsink, hresult⟩ := render_eq_write list maxLevel root hwrite
      cases failure with
      | some cause => exact nomatch h.symm.trans hresult
      | none =>
          have hstop := result_isOk_iff.mp ⟨stats, hresult.symm.trans h⟩
          obtain ⟨part, hheld, -, hnone⟩ := Sink.exists_held_of_write hwrite
          rw [hsink, hheld, hnone.mp rfl, Lister.drawn_eq_trails hstop]

/-- **WHAT IS PRINTED**: a drawing leaves in its sink the lines of the trails
    printed, and after them nothing, or what the sink took of a line that
    it did not take whole. -/
theorem render_holds_printed (list : Lister) (maxLevel : Nat) (root : Path) (sink : Sink) :
    ∃ part, (render list maxLevel root sink).sink.held =
        sink.held ++ Trail.lines (list.printed maxLevel root sink) ++ part ∧
      (list.printed maxLevel root sink = list.drawn maxLevel root ∧ part = [] ∨
        ∃ cut rest, list.drawn maxLevel root = list.printed maxLevel root sink ++ cut :: rest ∧
          part <+: Text.encode cut.line ∧ part ≠ Text.encode cut.line) := by
  rw [Lister.printed]
  obtain ⟨next, hfits, hcut⟩ := Sink.exists_write_fitting (list.drawn maxLevel root) sink
  obtain ⟨whole, hwhole, -, hnone⟩ := Sink.exists_held_of_write hfits
  rw [hnone.mp rfl] at hwhole
  rcases hcut with hall | ⟨cut, rest, full, cause, hsplit, hcut⟩
  · rw [hall] at hfits hwhole ⊢
    refine ⟨[], ?_, Or.inl ⟨rfl, rfl⟩⟩
    rw [(render_eq_write list maxLevel root hfits).1, hwhole, List.append_nil]
  · obtain ⟨part, hpart, hprefix, hsome⟩ := Sink.exists_held_of_write hcut
    have hwrite := Sink.write_lines_of_cut hfits hcut rest
    rw [← hsplit] at hwrite
    refine ⟨part, ?_, Or.inr ⟨cut, rest, hsplit, hprefix, fun heq => ?_⟩⟩
    · rw [(render_eq_write list maxLevel root hwrite).1, hpart, hwhole]
    · cases hsome.mpr heq

/-! ## Two listers -/

/-- That two listers answer alike for the directory that a trail ends at, if
    a walk goes into it. -/
def Trail.AnsweredAlike (first second : Lister) (root : Path) (depth : Nat) (trail : Trail) : Prop :=
  trail.isTried depth = true →
    first.answer (trail.target root) = second.answer (trail.target root)

section Answers

variable {first second : Lister} {depth : Nat} {root : Path}

/-- What stands in the way of a trail, and what is next below it, are seen
    in the answer for the directory that it ends at. -/
theorem Trail.next_eq_of_answer {trail : Trail}
    (h : AnsweredAlike first second root depth trail) :
    obstacle first root depth trail = obstacle second root depth trail ∧
      first.next depth root trail = second.next depth root trail := by
  rw [obstacle, obstacle, Lister.next, Lister.next]
  by_cases htried : trail.isTried depth = true
  · have hanswer := h htried
    rw [if_pos htried, if_pos htried, if_pos htried, if_pos htried, Lister.obstacle, Lister.obstacle]
    rw [Lister.answer, Lister.answer] at hanswer
    generalize first (trail.target root) = a, second (trail.target root) = b at hanswer
    cases a with
    | error e =>
        cases b with
        | error e' => exact ⟨congrArg some (Except.error.inj hanswer), rfl⟩
        | ok listing' => cases hanswer
    | ok listing =>
        cases b with
        | error e' => cases hanswer
        | ok listing' =>
            have hentries : listing.entries = listing'.entries := Except.ok.inj hanswer
            simp only [hentries, and_self]
  · rw [if_neg htried, if_neg htried, if_neg htried, if_neg htried]
    exact ⟨rfl, rfl⟩

/-- Where all trails passed are answered alike, the second drawing is the
    first. -/
theorem Lister.drawn_eq_of_answers
    (h : ∀ trail ∈ [] :: first.drawn depth root, Trail.AnsweredAlike first second root depth trail) :
    second.drawn depth root = first.drawn depth root ∧
      second.stop? depth root = first.stop? depth root := by
  have hsame : [] :: first.drawn depth root = [] :: second.drawn depth root := by
    rw [nil_cons_drawn_eq] at h ⊢
    rw [nil_cons_drawn_eq, ← List.forall₂_eq_eq_eq]
    refine forall₂_upTo_flatMap (first.onward_eq depth root) (second.onward_eq depth root)
      (.cons rfl .nil) ?_
    rintro trail htrail _ - rfl
    obtain ⟨hobstacle, hnext⟩ := Trail.next_eq_of_answer (h trail htrail)
    rw [hobstacle, hnext, List.forall₂_eq_eq_eq]
    exact ⟨Iff.rfl, fun _ => rfl⟩
  refine ⟨(List.cons.inj hsame).2.symm, ?_⟩
  obtain ⟨passed, last, hlast⟩ :=
    (List.eq_nil_or_concat ([] :: first.drawn depth root)).resolve_left (List.cons_ne_nil _ _)
  rw [List.concat_eq_append] at hlast
  have hmem : last ∈ [] :: first.drawn depth root := by
    rw [hlast]
    exact List.mem_append_right _ List.mem_cons_self
  rw [stop?_eq_of_last hlast, stop?_eq_of_last (hsame.symm.trans hlast),
    (Trail.next_eq_of_answer (h last hmem)).1]

/-- Where those before a trail are, the second drawing has the same trails
    up to that one. -/
theorem Lister.prefix_drawn_of_answers {printed : List Trail} {cut : Trail}
    (hprinted : printed ++ [cut] <+: first.drawn depth root)
    (h : ∀ trail ∈ [] :: printed, Trail.AnsweredAlike first second root depth trail) :
    printed ++ [cut] <+: second.drawn depth root := by
  have hpassed : ([] :: printed) ++ [cut] <+: [] :: first.drawn depth root :=
    (List.prefix_cons_inj _).mpr hprinted
  rw [nil_cons_drawn_eq] at hpassed
  have hsecond := append_singleton_prefix_upTo (first.onward_eq depth root)
    (second.onward_eq depth root) hpassed fun trail htrail => Trail.next_eq_of_answer (h trail htrail)
  rw [← nil_cons_drawn_eq] at hsecond
  exact (List.prefix_cons_inj _).mp hsecond

/-- **TWO DRAWINGS**: where the root and the trails printed are answered
    alike, the second drawing ends like the first and leaves the sink as it
    does. -/
theorem render_eq_of_answers {sink : Sink}
    (h : ∀ trail ∈ [] :: first.printed depth root sink,
      Trail.AnsweredAlike first second root depth trail) :
    (render second depth root sink).result = (render first depth root sink).result ∧
      (render second depth root sink).sink = (render first depth root sink).sink := by
  rw [Lister.printed] at h
  obtain ⟨next, hfits, hcut⟩ := Sink.exists_write_fitting (first.drawn depth root) sink
  rcases hcut with hall | ⟨cut, rest, full, cause, hsplit, hcut⟩
  · -- the sink takes every line, so the drawings are the same throughout
    rw [hall] at h
    obtain ⟨hdrawn, hstop⟩ := Lister.drawn_eq_of_answers h
    have hfree : (render second depth root .unlimited).result =
        (render first depth root .unlimited).result := by
      rw [(render_eq_course _ _ _).2, (render_eq_course _ _ _).2, hdrawn, hstop]
    rw [hall] at hfits
    obtain ⟨hsink, hresult⟩ := render_eq_write first depth root hfits
    rw [← hdrawn] at hfits
    obtain ⟨hsink', hresult'⟩ := render_eq_write second depth root hfits
    rw [hsink, hresult, hsink', hresult', hfree]
    exact ⟨rfl, rfl⟩
  · -- both are stopped at the line that does not fit, whatever comes after it
    have hprinted : sink.fitting (first.drawn depth root) ++ [cut] <+: first.drawn depth root :=
      ⟨rest, by rw [List.append_assoc, List.singleton_append, ← hsplit]⟩
    obtain ⟨rest', hrest'⟩ := Lister.prefix_drawn_of_answers hprinted h
    rw [List.append_assoc, List.singleton_append] at hrest'
    have hwrite := Sink.write_lines_of_cut hfits hcut rest
    have hwrite' := Sink.write_lines_of_cut hfits hcut rest'
    rw [← hsplit] at hwrite
    rw [hrest'] at hwrite'
    obtain ⟨hsink, hresult⟩ := render_eq_write first depth root hwrite
    obtain ⟨hsink', hresult'⟩ := render_eq_write second depth root hwrite'
    rw [hsink, hresult, hsink', hresult']
    exact ⟨rfl, rfl⟩

/-- So the two end alike where the root, if a level is drawn at all, and the
    directories printed above the last level are answered alike. -/
theorem render_eq_of_seen {sink : Sink} (hroot : 1 ≤ depth → first.answer root = second.answer root)
    (hprinted : ∀ trail ∈ first.printed depth root sink, Trail.isDirectory trail = true →
      trail.length < depth → first.answer (trail.target root) = second.answer (trail.target root)) :
    (render second depth root sink).result = (render first depth root sink).result ∧
      (render second depth root sink).sink = (render first depth root sink).sink := by
  refine render_eq_of_answers (List.forall_mem_cons.mpr ⟨fun htried => ?_, ?_⟩)
  · exact hroot (of_decide_eq_true htried)
  · intro trail htrail htried
    obtain ⟨hdir, hlen⟩ := Bool.and_eq_true_iff.mp htried
    exact hprinted trail htrail hdir (of_decide_eq_true hlen)

/-- With no level to draw nothing is asked and nothing drawn. -/
theorem render_zero (list : Lister) (root : Path) (sink : Sink) :
    (render list 0 root sink).result = .ok .zero ∧ (render list 0 root sink).sink = sink :=
  ⟨rfl, rfl⟩

end Answers

/-- **NOTHING BEYOND**: let two file systems answer alike for the root, if a
    level is drawn at all, and for every directory whose line the drawing on
    the first prints above the last level.  Then the drawing on the second
    ends with the same result and leaves the sink the same, whatever the
    sink takes.  Where no level is drawn, every file system and every root
    give success, no counts and the sink as it was. -/
theorem render_horizon :
    (∀ (files files' : FileSystem) (maxLevel : Nat) (root : Path) (sink : Sink),
      (1 ≤ maxLevel → Lister.answer files.list root = Lister.answer files'.list root) →
      (∀ trail ∈ Lister.printed files.list maxLevel root sink, Trail.isDirectory trail = true →
        trail.length < maxLevel →
        Lister.answer files.list (trail.target root) =
          Lister.answer files'.list (trail.target root)) →
      (render files'.list maxLevel root sink).result =
          (render files.list maxLevel root sink).result ∧
        (render files'.list maxLevel root sink).sink =
          (render files.list maxLevel root sink).sink) ∧
    ∀ (files : FileSystem) (root : Path) (sink : Sink),
      (render files.list 0 root sink).result = .ok .zero ∧
        (render files.list 0 root sink).sink = sink := by
  constructor
  · intro files files' maxLevel root sink hroot hprinted
    exact render_eq_of_seen hroot hprinted
  · intro files root sink
    exact render_zero files.list root sink

/-- A directory two levels down with a file in it, and a second directory on
    the first level with another. -/
def nearTree : FileSystem :=
  ⟨.directory .granted
    [([0x61], .directory .granted [([0x62], .directory .granted [([0x78], .file)])]),
      ([0x7A], .directory .granted [([0x79], .file)])], [], rfl⟩

/-- The same, but with neither of the two readable, and nothing in them. -/
def farLockedTree : FileSystem :=
  ⟨.directory .granted
    [([0x61], .directory .granted [([0x62], .directory ⟨false, false⟩ [])]),
      ([0x7A], .directory ⟨false, true⟩ [])], [], rfl⟩

/-- The last level is the second, and the sink is full within the third
    line. -/
theorem render_horizon_near :
    Lister.answer nearTree.list [0x2E] = Lister.answer farLockedTree.list [0x2E] ∧
      (Lister.printed nearTree.list 2 [0x2E] (.bounded 37 .readerGone)).map Trail.line =
        ["├── a/\n", "│   └── b/\n"] ∧
      (render farLockedTree.list 2 [0x2E] (.bounded 37 .readerGone)).result =
        .error (.io .readerGone) ∧
      (render farLockedTree.list 2 [0x2E] (.bounded 37 .readerGone)).sink =
        (render nearTree.list 2 [0x2E] (.bounded 37 .readerGone)).sink := by
  have hroot : Lister.answer nearTree.list [0x2E] = Lister.answer farLockedTree.list [0x2E] := by
    cbv
  let a : Entry := ⟨"a", [0x2E, 0x2F, 0x61], .directory⟩
  let b : Entry := ⟨"b", [0x2E, 0x2F, 0x61, 0x2F, 0x62], .directory⟩
  let z : Entry := ⟨"z", [0x2E, 0x2F, 0x7A], .directory⟩
  have hprinted : Lister.printed nearTree.list 2 [0x2E] (.bounded 37 .readerGone) =
      [[⟨[], a, [z]⟩], [⟨[], a, [z]⟩, ⟨[], b, []⟩]] := by cbv
  have hanswers : ∀ trail ∈ Lister.printed nearTree.list 2 [0x2E] (.bounded 37 .readerGone),
      Trail.isDirectory trail = true → trail.length < 2 →
      Lister.answer nearTree.list (trail.target [0x2E]) =
        Lister.answer farLockedTree.list (trail.target [0x2E]) := by
    rw [hprinted]
    refine List.forall_mem_cons.mpr ⟨fun _ _ => by cbv, List.forall_mem_singleton.mpr ?_⟩
    intro _ hlen
    exact absurd hlen (by decide)
  obtain ⟨hresult, hsink⟩ :=
    render_horizon.1 nearTree farLockedTree 2 [0x2E] (.bounded 37 .readerGone) (fun _ => hroot) hanswers
  refine ⟨hroot, by rw [hprinted]; cbv, hresult.trans (by cbv), hsink⟩

end TreeSketch
