import TreeSketch.Error

/-! # Log events

    An event is what happened; its severity, the part of the program it
    comes from, its message and its fields follow from that. -/

namespace TreeSketch

namespace Log

/-- How much an event matters, the gravest first. -/
inductive Severity where
  | error
  | warn
  | info
  | debug
  | trace
  deriving DecidableEq, Repr

namespace Severity

/-- The place of a severity, the gravest at one. -/
def rank : Severity → Nat
  | error => 1
  | warn => 2
  | info => 3
  | debug => 4
  | trace => 5

/-- The name of a severity in log lines. -/
def name : Severity → String
  | error => "ERROR"
  | warn => "WARN"
  | info => "INFO"
  | debug => "DEBUG"
  | trace => "TRACE"

end Severity

/-- The value of a field. -/
inductive Value where
  | text (text : String)
  | number (n : Nat)
  deriving DecidableEq, Repr

namespace Value

/-- A value as log lines show it. -/
def shown : Value → String
  | .text t => t
  | .number n => toString n

end Value

end Log

/-- What is worth a line in the log. -/
inductive Event where
  /-- The arguments were read. -/
  | starting (path : Path) (maxLevel : Nat)
  /-- An entry's path leads nowhere. -/
  | unexamined (path : Path) (cause : Cause)
  /-- A directory was listed for a level of the drawing. -/
  | listing (dir : Path) (level count : Nat)
  /-- A drawing is complete. -/
  | rendered (root : Path) (directories files : Nat)
  deriving DecidableEq, Repr

namespace Event

open Log

/-- How much an event matters. -/
def severity : Event → Severity
  | starting _ _ => .debug
  | unexamined _ _ => .trace
  | listing _ _ _ => .trace
  | rendered _ _ _ => .debug

/-- The part of the program an event comes from. -/
def target : Event → String
  | starting _ _ => "dirtree"
  | unexamined _ _ => "dirtree::services::fs::listing"
  | listing _ _ _ => "dirtree::services::tree"
  | rendered _ _ _ => "dirtree::services::tree"

/-- What an event says. -/
def message : Event → String
  | starting _ _ => "starting"
  | unexamined path cause => "metadata unavailable for " ++ path.shown ++ ": " ++ cause.message
  | listing _ _ _ => "listing"
  | rendered _ _ _ => "rendered tree"

/-- The named values of an event. -/
def fields : Event → List (String × Value)
  | starting path maxLevel => [("path", .text path.shown), ("max_level", .number maxLevel)]
  | unexamined _ _ => []
  | listing dir level count =>
    [("dir", .text dir.shown), ("level", .number level), ("count", .number count)]
  | rendered root directories files =>
    [("root", .text root.shown), ("directories", .number directories), ("files", .number files)]

end Event

end TreeSketch
