import TreeSketch.Buffer
import TreeSketch.Walk

/-! # Drawing into different writers

    A walk knows its writer only by what it writes and by the failures it
    gets back.  Take a relation between two writers that every write keeps,
    and in which both fail alike (`Writer.Agree`).  Then a walk into the one
    and the same walk into the other stay in step (`Walk.InStep`): each
    step does, sequencing keeps it (`Walk.InStep.bind`), and so by
    recursion a whole drawing does (`renderInto_inStep`).

    A buffer agrees with a sink without limit about all that was written,
    passed or not: `renderInto_buffer`. -/

namespace TreeSketch

section InStep

variable {σ τ α β : Type}

/-- That a write to related writers leaves them related, and fails for one
    as it does for the other. -/
def Writer.Agree [Writer σ] [Writer τ] (R : σ → τ → Prop) : Prop :=
  ∀ a b, R a b → ∀ bytes, R (write a bytes).1 (write b bytes).1 ∧
    (write a bytes).2 = (write b bytes).2

/-- That two walks have done the same so far, into related writers. -/
structure Progress.Matches (R : σ → τ → Prop) (progress : Progress σ) (other : Progress τ) :
    Prop where
  sink : R progress.sink other.sink
  stats : progress.stats = other.stats
  newest : progress.newest = other.newest

namespace Walk

/-- That two walks end in the same way, having done the same. -/
inductive EndAlike (R : σ → τ → Prop) :
    EStateM.Result Error (Progress σ) α → EStateM.Result Error (Progress τ) α → Prop where
  | ok (a : α) {progress : Progress σ} {other : Progress τ} (h : progress.Matches R other) :
      EndAlike R (.ok a progress) (.ok a other)
  | error (e : Error) {progress : Progress σ} {other : Progress τ} (h : progress.Matches R other) :
      EndAlike R (.error e progress) (.error e other)

/-- That two walks which have done the same so far go on to do the same. -/
def InStep (R : σ → τ → Prop) (walk : Walk σ α) (other : Walk τ α) : Prop :=
  ∀ progress progress', progress.Matches R progress' →
    EndAlike R (walk.run progress) (other.run progress')

variable {R : σ → τ → Prop}

theorem inStep_pure (a : α) : InStep R (pure a) (pure a) := by
  intro progress progress' h
  exact .ok a h

theorem inStep_throw (e : Error) : InStep R (throw e : Walk σ α) (throw e) := by
  intro progress progress' h
  exact .error e h

theorem InStep.bind {walk : Walk σ α} {other : Walk τ α} {after : α → Walk σ β}
    {after' : α → Walk τ β} (h : InStep R walk other)
    (hafter : ∀ a, InStep R (after a) (after' a)) :
    InStep R (walk >>= after) (other >>= after') := by
  intro progress progress' hprogress
  have hwalk := h progress progress' hprogress
  rw [EStateM.run_bind, EStateM.run_bind]
  generalize walk.run progress = outcome, other.run progress' = outcome' at hwalk
  cases hwalk with
  | ok a hmiddle => exact hafter a _ _ hmiddle
  | error e hmiddle => exact .error e hmiddle

theorem inStep_record (events : List Event) : InStep R (record events) (record events) := by
  intro progress progress' h
  exact .ok () ⟨h.sink, h.stats, congrArg events.reverseAux h.newest⟩

theorem inStep_count (entry : Entry) : InStep R (count entry) (count entry) := by
  intro progress progress' h
  exact .ok () ⟨h.sink, congrArg (Stats.count · entry.isDirectory) h.stats, h.newest⟩

theorem inStep_openDirectory (list : Lister) (dir : Path) (level : Nat) :
    InStep R (openDirectory list dir level) (openDirectory list dir level) := by
  rw [openDirectory, openDirectory]
  cases list dir with
  | error e => exact inStep_throw e
  | ok listing =>
      exact (inStep_record _).bind fun _ => (inStep_record _).bind fun _ => inStep_pure _

variable [Writer σ] [Writer τ]

/-- **ONE WRITE** is where the writers are asked, and they agree. -/
theorem inStep_write (hR : Writer.Agree R) (text : String) :
    InStep R (write text) (write text) := by
  intro progress progress' h
  obtain ⟨hsink, hfailure⟩ := hR _ _ h.sink (Text.encode text)
  rw [EStateM.run, EStateM.run, write, write]
  generalize Writer.write progress.sink (Text.encode text) = taken,
    Writer.write progress'.sink (Text.encode text) = taken' at hsink hfailure
  obtain ⟨sink, failure⟩ := taken
  obtain ⟨sink', failure'⟩ := taken'
  obtain rfl : failure = failure' := hfailure
  cases failure with
  | none => exact .ok () ⟨hsink, h.stats, h.newest⟩
  | some cause => exact .error (.io cause) ⟨hsink, h.stats, h.newest⟩

theorem inStep_drawLine (hR : Writer.Agree R) (cursor : Cursor) (connector : Connector)
    (entry : Entry) :
    InStep R (drawLine cursor connector entry) (drawLine cursor connector entry) :=
  (inStep_write hR _).bind fun _ => (inStep_write hR _).bind fun _ =>
    (inStep_write hR _).bind fun _ => inStep_write hR _

theorem inStep_drawEntries (hR : Writer.Agree R) {below : Path → Cursor → Walk σ Unit}
    {below' : Path → Cursor → Walk τ Unit}
    (hbelow : ∀ path cursor, InStep R (below path cursor) (below' path cursor)) (cursor : Cursor)
    (entries : List Entry) :
    InStep R (drawEntries below cursor entries) (drawEntries below' cursor entries) := by
  induction entries with
  | nil => exact inStep_pure ()
  | cons entry rest ih =>
      rw [drawEntries, drawEntries]
      refine (inStep_drawLine hR _ _ _).bind fun _ => (inStep_count entry).bind fun _ => ?_
      by_cases hdir : entry.isDirectory = true
      · rw [if_pos hdir, if_pos hdir]
        exact (hbelow _ _).bind fun _ => ih
      · rw [if_neg hdir, if_neg hdir]
        exact (inStep_pure ()).bind fun _ => ih

theorem inStep_drawLevels (hR : Writer.Agree R) (list : Lister) {left : Nat} :
    ∀ dir cursor, InStep R (drawLevels list left dir cursor) (drawLevels list left dir cursor) := by
  induction left with
  | zero => intro dir cursor; exact inStep_pure ()
  | succ left ih =>
      intro dir cursor
      exact (inStep_openDirectory list dir _).bind fun entries =>
        inStep_drawEntries hR ih cursor entries

/-- The end of a drawing tells the counts, which are the same. -/
theorem inStep_drawTree (hR : Writer.Agree R) (list : Lister) (maxLevel : Nat) (root : Path) :
    InStep R (drawTree list maxLevel root) (drawTree list maxLevel root) := by
  refine (inStep_drawLevels hR list _ _).bind fun _ => ?_
  intro progress progress' h
  have hsame : progress.stats = progress'.stats := h.stats
  show EndAlike R
    (.ok progress.stats
      (progress.record [.rendered root progress.stats.directories progress.stats.files]))
    (.ok progress'.stats
      (progress'.record [.rendered root progress'.stats.directories progress'.stats.files]))
  rw [← hsame]
  exact .ok _ ⟨h.sink, hsame, congrArg _ h.newest⟩

end Walk

/-- **IN STEP**: a drawing ends with the same result and the same log in
    writers that agree, and leaves them in agreement. -/
theorem renderInto_inStep [Writer σ] [Writer τ] {R : σ → τ → Prop} (hR : Writer.Agree R)
    (list : Lister) (maxLevel : Nat) (root : Path) {a : σ} {b : τ} (h : R a b) :
    R (renderInto list maxLevel root a).sink (renderInto list maxLevel root b).sink ∧
      (renderInto list maxLevel root a).result = (renderInto list maxLevel root b).result ∧
      (renderInto list maxLevel root a).log = (renderInto list maxLevel root b).log := by
  have hstart : (Progress.start a).Matches R (.start b) := ⟨h, rfl, rfl⟩
  have hrun := Walk.inStep_drawTree hR list maxLevel root _ _ hstart
  rw [renderInto, renderInto]
  generalize (Walk.drawTree list maxLevel root).run (Progress.start a) = outcome,
    (Walk.drawTree list maxLevel root).run (Progress.start b) = outcome' at hrun
  cases hrun with
  | ok stats hend => exact ⟨hend.sink, rfl, congrArg List.reverse hend.newest⟩
  | error e hend => exact ⟨hend.sink, rfl, congrArg List.reverse hend.newest⟩

end InStep

/-- A buffer takes what a sink without limit takes. -/
theorem Buffer.agree_unlimited (before : Bytes) :
    Writer.Agree fun (buffer : Buffer) (sink : Sink) =>
      sink.room = none ∧ buffer.written = before ++ sink.held := by
  rintro buffer sink ⟨hroom, hwritten⟩ bytes
  have hbuffer : Writer.write buffer bytes = (buffer.write bytes, none) := rfl
  have hsink : Writer.write sink bytes = (sink.push bytes, none) :=
    Sink.write_of_unlimited hroom bytes
  rw [hbuffer, hsink]
  refine ⟨⟨hroom, ?_⟩, rfl⟩
  rw [written_write, hwritten, Sink.held_push, List.append_assoc]

/-- **THROUGH A BUFFER**: a drawing into a buffer ends as it does in a sink
    without limit, and by then has written to the buffer what it leaves in
    that sink, after what was written before. -/
theorem renderInto_buffer (list : Lister) (maxLevel : Nat) (root : Path) (buffer : Buffer) :
    (renderInto list maxLevel root buffer).sink.written =
        buffer.written ++ (render list maxLevel root .unlimited).sink.held ∧
      (renderInto list maxLevel root buffer).result =
        (render list maxLevel root .unlimited).result ∧
      (renderInto list maxLevel root buffer).log = (render list maxLevel root .unlimited).log := by
  have hstart : Sink.unlimited.room = none ∧
      buffer.written = buffer.written ++ Sink.unlimited.held := ⟨rfl, (List.append_nil _).symm⟩
  obtain ⟨⟨-, hwritten⟩, hends⟩ :=
    renderInto_inStep (Buffer.agree_unlimited buffer.written) list maxLevel root hstart
  exact ⟨hwritten, hends⟩

end TreeSketch
