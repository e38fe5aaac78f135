import Mathlib
import TreeSketch.Program
import TreeSketch.Proofs.Course
import TreeSketch.Proofs.Messages
import TreeSketch.Proofs.Writers

/-! # What the program prints

    The program is the walk with a banner above it: its output is the
    banner and what the same drawing leaves in a sink without limit, and
    its exit code tells how that drawing ended.

    * The program draws through a buffer, write by write.  All that was
      written has passed it by the time that the result is looked at, since
      it is flushed on every way out (`draw_stdout`).
    * No event is as grave as a warning, so the filter that stands without
      a setting admits none (`logText_none`), and a setting touches nothing
      but the log (`run_refines_render`).
    * What stops a drawing of a file system is a directory that cannot be
      listed, so a failure is reported with three messages.  Their texts are
      those of `Proofs.Messages`, and so are the messages of arguments that
      stop. -/

namespace TreeSketch

/-! ## The log -/

namespace Log.Filter

/-- A single directive without a target decides about every event. -/
theorem admits_atLeast (severity : Severity) (event : Event) :
    (atLeast severity).admits event = decide (event.severity.rank ≤ severity.rank) := by
  have hdirective : (atLeast severity).directive? event.target = some ⟨[], some severity⟩ := by
    rw [directive?, atLeast, List.filter_cons_of_pos rfl]
    rfl
  rw [admits, hdirective]
  rfl

end Log.Filter

/-- No event is as grave as a warning. -/
theorem Event.rank_severity (event : Event) : Log.Severity.warn.rank < event.severity.rank := by
  cases event <;> simp [severity, Log.Severity.rank]

theorem CommandLine.Stop.isAnswer_iff (stop : Stop) :
    stop.isAnswer = true ↔ stop = .help ∨ stop = .version := by
  cases stop <;> simp [isAnswer]

namespace Program

theorem logText_none (stamp : String) (events : List Event) :
    logText (.ofSetting none) stamp events = "" := by
  have hnone : events.filter (Log.Filter.ofSetting none).admits = [] := by
    refine List.filter_eq_nil_iff.mpr fun event _ => ?_
    show ¬ (Log.Filter.atLeast .warn).admits event = true
    rw [Log.Filter.admits_atLeast, decide_eq_true_eq]
    exact Nat.not_le_of_lt event.rank_severity
  rw [logText, hnone]
  rfl

/-! ## The streams -/

section Draw

variable (around : Surroundings) (request : CommandLine.Request)

/-- What is drawn for a request. -/
def drawing (files : FileSystem) (request : CommandLine.Request) : Rendering Sink :=
  render files.list request.maxLevel request.path .unlimited

/-- Through the buffer the same is drawn, after the banner. -/
theorem buffered_eq (files : FileSystem) :
    (buffered files request).sink.written = Text.encode (banner request.maxLevel) ++
        Text.encode "\n\n" ++ (drawing files request).sink.held ∧
      (buffered files request).result = (drawing files request).result ∧
      (buffered files request).log = (drawing files request).log := by
  have hheading : (Buffer.empty.writeAll [Text.encode (banner request.maxLevel),
      Text.encode "\n\n"]).written = Text.encode (banner request.maxLevel) ++ Text.encode "\n\n" := by
    rw [Buffer.written_writeAll, List.flatten_cons, List.flatten_singleton]
    rfl
  rw [← hheading]
  exact renderInto_buffer files.list request.maxLevel request.path _

/-- **THE OUTPUT** is the banner and all of the drawing. -/
theorem draw_stdout :
    (draw around request).stdout = Text.encode (banner request.maxLevel) ++ Text.encode "\n\n" ++
      (drawing around.files request).sink.held := by
  obtain ⟨hwritten, -, -⟩ := buffered_eq request around.files
  rw [← hwritten, ← Buffer.passed_flush, draw]
  split
  · rfl
  · rfl

theorem draw_of_ok {stats : Stats} (h : (drawing around.files request).result = .ok stats) :
    (draw around request).code = 0 ∧
      (draw around request).stderr = Text.encode (logText (.ofSetting around.logSetting) around.stamp
        (.starting request.path request.maxLevel :: (drawing around.files request).log)) := by
  obtain ⟨-, hresult, hlog⟩ := buffered_eq request around.files
  rw [← hresult] at h
  rw [← hlog, draw, h]
  exact ⟨rfl, rfl⟩

theorem draw_of_error {e : Error} (h : (drawing around.files request).result = .error e) :
    (draw around request).code = 1 ∧
      (draw around request).stderr = Text.encode (logText (.ofSetting around.logSetting) around.stamp
        (.starting request.path request.maxLevel :: (drawing around.files request).log) ++
          e.report request.path) := by
  obtain ⟨-, hresult, hlog⟩ := buffered_eq request around.files
  rw [← hresult] at h
  rw [← hlog, draw, h]
  exact ⟨rfl, rfl⟩

end Draw

/-- That an outcome is what is said when the arguments stop: on the output
    if it was asked for, and else on the other stream. -/
def ShowsMessage (stop : CommandLine.Stop) (outcome : Outcome) : Prop :=
  ∃ text, stop.Says text ∧ outcome =
    if stop = .help ∨ stop = .version then ⟨0, Text.encode text, []⟩
    else ⟨2, [], Text.encode text⟩

/-- That an outcome is the drawing of a request: the banner, two newlines
    and what is drawn, whether the drawing succeeds or not.  `quiet` is the
    outcome without a setting of the log; its other stream is empty or
    reports the failure in three messages. -/
structure ShowsDrawing (files : FileSystem) (request : CommandLine.Request)
    (outcome quiet : Outcome) : Prop where
  stdout : outcome.stdout = Text.encode (banner request.maxLevel) ++ Text.encode "\n\n" ++
    (drawing files request).sink.held
  ok : ∀ stats, (drawing files request).result = .ok stats →
    outcome.code = 0 ∧ quiet.stderr = []
  error : ∀ e, (drawing files request).result = .error e → outcome.code = 1 ∧
    ∃ dir cause text, e = .access dir cause ∧ files.readNames dir = .error cause ∧
      cause.Reads text ∧ quiet.stderr = Text.encode
        ("Error: " ++ "failed to render tree for " ++ Text.decodeLossy request.path ++ "\n\n" ++
          "Caused by:\n" ++
          "    0: " ++ inReport ("cannot read directory " ++ Text.decodeLossy dir) ++ "\n" ++
          "    1: " ++ text ++ "\n")

theorem showsMessage_ofStop (stop : CommandLine.Stop) : ShowsMessage stop (.ofStop stop) := by
  refine ⟨stop.message, stop.says_message, ?_⟩
  rw [Outcome.ofStop, CommandLine.Stop.exitCode]
  by_cases h : stop.isAnswer = true
  · rw [if_pos h, if_pos h, if_pos (stop.isAnswer_iff.mp h)]
  · rw [if_neg h, if_neg h, if_neg fun hstop => h (stop.isAnswer_iff.mpr hstop)]

/-- A drawing of a file system fails by a directory that cannot be listed. -/
theorem access_of_drawing {files : FileSystem} {request : CommandLine.Request} {e : Error}
    (h : (drawing files request).result = .error e) :
    ∃ dir cause, e = .access dir cause ∧ files.readNames dir = .error cause := by
  obtain ⟨trail, hstop⟩ := result_eq_error_iff.mp h
  obtain ⟨cause, he, hread⟩ := FileSystem.access_of_stop? hstop
  exact ⟨_, cause, he, hread⟩

theorem showsDrawing_draw (files : FileSystem) (setting : Option Bytes) (stamp : String)
    (request : CommandLine.Request) :
    ShowsDrawing files request (draw ⟨files, setting, stamp⟩ request)
      (draw ⟨files, none, stamp⟩ request) := by
  refine ⟨?_, ?_, ?_⟩
  · exact draw_stdout _ request
  · intro stats h
    obtain ⟨hcode, -⟩ := draw_of_ok ⟨files, setting, stamp⟩ request h
    obtain ⟨-, hstderr⟩ := draw_of_ok ⟨files, none, stamp⟩ request h
    refine ⟨hcode, ?_⟩
    rw [hstderr, logText_none]
    rfl
  · intro e h
    obtain ⟨hcode, -⟩ := draw_of_error ⟨files, setting, stamp⟩ request h
    obtain ⟨-, hstderr⟩ := draw_of_error ⟨files, none, stamp⟩ request h
    obtain ⟨dir, cause, rfl, hlist⟩ := access_of_drawing h
    obtain ⟨text, hreads⟩ := FileSystem.exists_reads hlist
    refine ⟨hcode, dir, cause, text, rfl, hlist, hreads, ?_⟩
    rw [hstderr, logText_none, String.empty_append, Error.report_access hreads]

/-- Without the log nothing depends on its setting. -/
theorem draw_setting (files : FileSystem) (setting other : Option Bytes) (stamp otherStamp : String)
    (request : CommandLine.Request) :
    (draw ⟨files, other, otherStamp⟩ request).stdout = (draw ⟨files, setting, stamp⟩ request).stdout ∧
      (draw ⟨files, other, otherStamp⟩ request).code = (draw ⟨files, setting, stamp⟩ request).code := by
  rw [draw_stdout, draw_stdout]
  refine ⟨rfl, ?_⟩
  cases h : (drawing files request).result with
  | ok stats =>
      exact (draw_of_ok ⟨files, other, otherStamp⟩ request h).1.trans
        (draw_of_ok ⟨files, setting, stamp⟩ request h).1.symm
  | error e =>
      exact (draw_of_error ⟨files, other, otherStamp⟩ request h).1.trans
        (draw_of_error ⟨files, setting, stamp⟩ request h).1.symm

end Program

/-- **THE PROGRAM REFINES THE WALK**: arguments that stop leave their
    message and nothing else; arguments that ask for a drawing leave the
    banner and the drawing, and its result as the exit code; and no setting
    of the log shows in the output or the exit code. -/
theorem run_refines_render (files : FileSystem) (setting : Option Bytes) (stamp : String)
    (args : List Bytes) :
    (match CommandLine.read args with
      | .error stop => Program.ShowsMessage stop (Program.run ⟨files, setting, stamp⟩ args)
      | .ok request =>
        Program.ShowsDrawing files request (Program.run ⟨files, setting, stamp⟩ args)
          (Program.run ⟨files, none, stamp⟩ args)) ∧
      ∀ other otherStamp,
        (Program.run ⟨files, other, otherStamp⟩ args).stdout =
            (Program.run ⟨files, setting, stamp⟩ args).stdout ∧
          (Program.run ⟨files, other, otherStamp⟩ args).code =
            (Program.run ⟨files, setting, stamp⟩ args).code := by
  cases hread : CommandLine.read args with
  | error stop =>
      have hrun : ∀ around, Program.run around args = .ofStop stop := fun around => by
        rw [Program.run, hread]
      rw [hrun]
      exact ⟨Program.showsMessage_ofStop stop, fun _ _ => by rw [hrun]; exact ⟨rfl, rfl⟩⟩
  | ok request =>
      have hrun : ∀ around, Program.run around args = Program.draw around request :=
        fun around => by rw [Program.run, hread]
      rw [hrun, hrun]
      refine ⟨Program.showsDrawing_draw files setting stamp request, fun other otherStamp => ?_⟩
      rw [hrun]
      exact Program.draw_setting files setting other stamp otherStamp request

end TreeSketch
