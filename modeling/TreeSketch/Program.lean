import TreeSketch.Buffer
import TreeSketch.CommandLine.Reading
import TreeSketch.FileSystem.Edit
import TreeSketch.Log.Filter
import TreeSketch.Log.Line
import TreeSketch.Walk

/-! # The program as a whole

    The program reads its arguments, prints the banner and the tree through
    a buffer, and tells the log on the other stream.  What was drawn before
    a failure stays printed, since the buffer is flushed before the failure
    is looked at; the failure itself is reported with its causes. -/

namespace TreeSketch

/-- What the program finds around it: the file system, the setting of the
    log's filter, and the stamp of its lines. -/
structure Surroundings where
  files : FileSystem
  logSetting : Option Bytes
  stamp : String

/-- What the program leaves: its exit code and what it printed. -/
structure Outcome where
  code : Nat
  stdout : Bytes
  stderr : Bytes
  deriving DecidableEq, Repr

namespace Outcome

/-- The outcome of reading arguments that ask for no drawing. -/
def ofStop (stop : CommandLine.Stop) : Outcome :=
  if stop.isAnswer then ⟨stop.exitCode, Text.encode stop.message, []⟩
  else ⟨stop.exitCode, [], Text.encode stop.message⟩

end Outcome

namespace Error

/-- A cause as a report lists it: numbered, and the lines after its first
    one indented. -/
def causeText (number : Nat) (message : String) : String :=
  "    " ++ toString number ++ ": " ++ String.ofList (message.toList.flatMap fun c =>
    if c = '\n' then c :: List.replicate 7 ' ' else [c]) ++ "\n"

/-- The report of what could not be done and its causes in order, numbered
    from zero. -/
def reportOf (context : String) (causes : List String) : String :=
  "Error: " ++ context ++ "\n\nCaused by:\n" ++ String.join (causes.mapIdx causeText)

/-- What an error and the one that it holds say. -/
def causes (e : Error) : List String :=
  [e.message, e.cause.message]

/-- The report of an error in drawing the tree at `root`. -/
def report (root : Path) (e : Error) : String :=
  reportOf ("failed to render tree for " ++ root.shown) e.causes

end Error

namespace Program

/-- The lines of the events that a filter admits. -/
def logText (filter : Log.Filter) (stamp : String) (events : List Event) : String :=
  String.join ((events.filter filter.admits).map (Event.line stamp))

/-- Writes the banner to a buffer, and draws what is asked for into it. -/
def buffered (files : FileSystem) (request : CommandLine.Request) : Rendering Buffer :=
  let heading := [Text.encode (banner request.maxLevel), Text.encode "\n\n"]
  renderInto files.list request.maxLevel request.path (Buffer.empty.writeAll heading)

/-- Draws what is asked for, and flushes the buffer before anything is made
    of the result. -/
def draw (around : Surroundings) (request : CommandLine.Request) : Outcome :=
  let rendering := buffered around.files request
  let out := rendering.sink.flush
  let events := .starting request.path request.maxLevel :: rendering.log
  let log := logText (.ofSetting around.logSetting) around.stamp events
  match rendering.result with
  | .ok _ => ⟨0, out.passed, Text.encode log⟩
  | .error e => ⟨1, out.passed, Text.encode (log ++ e.report request.path)⟩

/-- Runs the program on its arguments. -/
def run (around : Surroundings) (args : List Bytes) : Outcome :=
  match CommandLine.read args with
  | .error stop => .ofStop stop
  | .ok request => draw around request

end Program

end TreeSketch
