import TreeSketch.Log.Event
import TreeSketch.Text.Alphanumeric

/-! # Which events are logged

    A filter is a list of directives, written with commas between them: a
    level, a target, or both joined by an equals sign.  The directive with
    the longest target that begins an event's target decides, and of equal
    ones the last; a directive without a target has the empty one.  A
    setting that cannot be read is as none. -/

namespace TreeSketch

namespace Log

/-- The least grave severity that is still logged; none logs nothing. -/
abbrev Threshold :=
  Option Severity

namespace Threshold

/-- Whether events of a severity are logged. -/
def admits (threshold : Threshold) (severity : Severity) : Bool :=
  match threshold with
  | none => false
  | some least => severity.rank ≤ least.rank

/-- The number that a text of digits, after a plus or not, stands for. -/
def number? (text : List Char) : Option Nat :=
  let digits := if text.head? = some '+' then text.tail else text
  if digits.isEmpty || !digits.all Char.isDigit then none
  else some (digits.foldl (fun n c => 10 * n + (c.toNat - '0'.toNat)) 0)

/-- The threshold of a number from zero to five. -/
def ofNumber? : Nat → Option Threshold
  | 0 => some none
  | 1 => some (some .error)
  | 2 => some (some .warn)
  | 3 => some (some .info)
  | 4 => some (some .debug)
  | 5 => some (some .trace)
  | _ => none

/-- The threshold of a name, in any case. -/
def ofName? (text : List Char) : Option Threshold :=
  match String.ofList (text.map Char.toLower) with
  | "off" => some none
  | "error" => some (some .error)
  | "warn" => some (some .warn)
  | "info" => some (some .info)
  | "debug" => some (some .debug)
  | "trace" => some (some .trace)
  | _ => none

/-- The threshold a text stands for. -/
def ofText? (text : List Char) : Option Threshold :=
  match (number? text).bind ofNumber? with
  | some threshold => some threshold
  | none => ofName? text

end Threshold

/-- A threshold for the events whose target begins with `target`. -/
structure Directive where
  target : List Char
  threshold : Threshold
  deriving DecidableEq, Repr

namespace Directive

/-- The characters that are taken off the ends of a directive before its
    form is looked at. -/
def isBlank (c : Char) : Bool :=
  let n := c.toNat
  (9 ≤ n && n ≤ 13) || n = 0x20 || n = 0x85 || n = 0xA0 || n = 0x1680
    || (0x2000 ≤ n && n ≤ 0x200A) || n = 0x2028 || n = 0x2029 || n = 0x202F || n = 0x205F
    || n = 0x3000

/-- A text without the blanks at its ends. -/
def trim (text : List Char) : List Char :=
  ((text.dropWhile isBlank).reverse.dropWhile isBlank).reverse

/-- Whether a directive may begin so: with a letter or a number of any
    script, a hyphen, a colon or an underscore. -/
def isOpening (c : Char) : Bool :=
  Text.isAlphanumeric c || c = '-' || c = ':' || c = '_'

/-- Reads a directive.  Blanks at its ends are no part of its form, but
    they are part of the target or level beside them, and none may stand
    before a target that a level follows. -/
def parse? (part : List Char) : Option Directive :=
  let form := trim part
  match form.head? with
  | none => none
  | some first =>
    if !isOpening first || '[' ∈ form.takeWhile (· ≠ '=') then none
    else if '=' ∈ form then
      let target := part.takeWhile (· ≠ '=')
      let level := (part.dropWhile (· ≠ '=')).drop 1
      if part.head?.any isBlank then none
      else if level.isEmpty then some ⟨target, some .trace⟩
      else (Threshold.ofText? level).map fun threshold => ⟨target, threshold⟩
    else match Threshold.ofText? part with
      | some threshold => some ⟨[], threshold⟩
      | none => some ⟨part, some .trace⟩

end Directive

/-- Which events are logged. -/
structure Filter where
  directives : List Directive
  deriving DecidableEq, Repr

namespace Filter

/-- The filter that logs what is at least as grave as a severity. -/
def atLeast (severity : Severity) : Filter :=
  ⟨[⟨[], some severity⟩]⟩

/-- Reads a filter.  Empty directives count for nothing; a filter without
    any logs errors. -/
def parse? (text : String) : Option Filter :=
  match ((text.toList.splitOn ',').filter fun part => !part.isEmpty).mapM Directive.parse? with
  | none => none
  | some [] => some (atLeast .error)
  | some directives => some ⟨directives⟩

/-- The filter of a setting.  One that is missing or cannot be read logs
    warnings. -/
def ofSetting (setting : Option Bytes) : Filter :=
  match ((setting.bind Text.decode?).bind parse?) with
  | some filter => filter
  | none => atLeast .warn

/-- Of two directives for an event, the one that decides: the longer
    target, or the later directive. -/
def prefer (best : Option Directive) (next : Directive) : Option Directive :=
  match best with
  | none => some next
  | some directive =>
    if directive.target.length ≤ next.target.length then some next else some directive

/-- The directive that decides about a target. -/
def directive? (filter : Filter) (target : String) : Option Directive :=
  (filter.directives.filter fun directive =>
    directive.target.isPrefixOf target.toList).foldl prefer none

/-- Whether an event is logged. -/
def admits (filter : Filter) (event : Event) : Bool :=
  match filter.directive? event.target with
  | none => false
  | some directive => directive.threshold.admits event.severity

end Filter

end Log

end TreeSketch
