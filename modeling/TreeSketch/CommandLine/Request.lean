import TreeSketch.CommandLine.Level
import TreeSketch.Path
import TreeSketch.Text.Plain

/-! # What the arguments ask for

    Arguments ask for a drawing, or reading them stops: for the help text,
    for the version, or at the first argument that cannot be taken.  Each
    reason to stop has its message, its stream and its exit code. -/

namespace TreeSketch

namespace CommandLine

/-- A drawing that is asked for. -/
structure Request where
  path : Path
  maxLevel : Nat
  deriving DecidableEq, Repr

/-- The options. -/
inductive Flag where
  | level
  | help
  | version
  deriving DecidableEq, Repr

namespace Flag

/-- The long name of an option, without its hyphens. -/
def name : Flag → String
  | level => "level"
  | help => "help"
  | version => "version"

/-- Every option with its long name, in the order of suggestions. -/
def candidates : List (List Char × Flag) :=
  [level, help, version].map fun flag => (flag.name.toList, flag)

/-- An option as it is typed. -/
def typed (flag : Flag) : String :=
  "--" ++ flag.name

/-- An option as usage lines show it, with its value. -/
def inUsage : Flag → String
  | level => "--level <MAX_LEVEL>"
  | help => "--help"
  | version => "--version"

end Flag

/-- How a usage line shows the path. -/
inductive PathPart where
  /-- As one that may be given. -/
  | optional
  /-- As one that has been given. -/
  | given
  /-- Together with the level, as one of the two that have been given. -/
  | orLevel
  deriving DecidableEq, Repr

namespace PathPart

/-- The path in a usage line. -/
def text : PathPart → String
  | optional => "[PATH]"
  | given => "<PATH>"
  | orLevel => "<PATH|" ++ Flag.level.inUsage ++ ">"

end PathPart

/-- The arguments that a usage line names: options, and the path. -/
structure Usage where
  flags : List Flag
  path : PathPart
  deriving DecidableEq, Repr

namespace Usage

/-- The usage line that names no argument in particular. -/
def general : Usage :=
  ⟨[], .optional⟩

/-- A usage line. -/
def line (usage : Usage) : String :=
  let options :=
    if usage = general then " [OPTIONS]"
    else String.join (usage.flags.map fun flag => " " ++ flag.inUsage)
  "Usage: dirtree" ++ options ++ " " ++ usage.path.text

end Usage

/-- What a message advises. -/
inductive Tip where
  /-- Nothing. -/
  | none
  /-- To put a separator before the argument. -/
  | separate (arg : String)
  /-- To use an option of a similar name. -/
  | similar (flag : Flag)
  deriving DecidableEq, Repr

namespace Tip

/-- The lines of a tip, with an empty one after them.  Arguments are shown
    without terminal controls. -/
def text : Tip → String
  | none => ""
  | separate arg =>
    "  tip: to pass '" ++ Text.plain arg ++ "' as a value, use '-- " ++ Text.plain arg ++ "'\n\n"
  | similar flag => "  tip: a similar argument exists: '" ++ flag.typed ++ "'\n\n"

end Tip

/-- Why reading the arguments stopped. -/
inductive Stop where
  /-- The help text is asked for. -/
  | help
  /-- The version is asked for. -/
  | version
  /-- There is no such argument, or no place for another path. -/
  | unknownArgument (arg : String) (tip : Tip) (usage : Usage)
  /-- The level has no value. -/
  | missingLevel
  /-- The path is empty. -/
  | emptyPath
  /-- The value of the level is not one. -/
  | invalidLevel (value : String) (why : LevelError)
  /-- The level is given twice. -/
  | repeatedLevel
  /-- The value of the level is not text. -/
  | levelNotText
  /-- An option that takes no value has one. -/
  | unexpectedValue (value : String) (flag : Flag) (usage : Usage)
  deriving DecidableEq, Repr

/-- The help text. -/
def helpText : String :=
  "Print a directory tree, limited to a maximum depth\n\n"
    ++ Usage.general.line ++ "\n\n"
    ++ "Arguments:\n"
    ++ "  [PATH]  Directory to start from [default: .]\n\n"
    ++ "Options:\n"
    ++ "  -L, --level <MAX_LEVEL>  Maximum depth to descend (1 = direct children only) [default: "
    ++ toString defaultMaxLevel ++ "]\n"
    ++ "  -h, --help               Print help\n"
    ++ "  -V, --version            Print version\n"

/-- The version. -/
def versionText : String :=
  "dirtree 0.1.0\n"

namespace Stop

/-- The message of an argument that cannot be taken: what is wrong, a tip,
    and perhaps a usage line. -/
def report (what : String) (tip : Tip) (usage : Option Usage) : String :=
  let usageText := match usage with
    | some usage => usage.line ++ "\n\n"
    | none => ""
  "error: " ++ what ++ "\n\n" ++ tip.text ++ usageText
    ++ "For more information, try '--help'.\n"

/-- What is written when reading stops.  Arguments are shown without
    terminal controls. -/
def message : Stop → String
  | help => helpText
  | version => versionText
  | unknownArgument arg tip usage =>
    report ("unexpected argument '" ++ Text.plain arg ++ "' found") tip usage
  | missingLevel =>
    report ("a value is required for '" ++ Flag.level.inUsage ++ "' but none was supplied")
      .none none
  | emptyPath => report "a value is required for '[PATH]' but none was supplied" .none none
  | invalidLevel value why =>
    report ("invalid value '" ++ Text.plain value ++ "' for '" ++ Flag.level.inUsage ++ "': "
      ++ why.message) .none none
  | repeatedLevel =>
    report ("the argument '" ++ Flag.level.inUsage ++ "' cannot be used multiple times")
      .none (some .general)
  | levelNotText =>
    report "invalid UTF-8 was detected in one or more arguments" .none (some .general)
  | unexpectedValue value flag usage =>
    report ("unexpected value '" ++ Text.plain value ++ "' for '" ++ flag.inUsage
      ++ "' found; no more were expected") .none (some usage)

/-- Whether reading stopped because something was asked for, and not
    because of a mistake. -/
def isAnswer : Stop → Bool
  | help => true
  | version => true
  | _ => false

/-- The exit code. -/
def exitCode (stop : Stop) : Nat :=
  if stop.isAnswer then 0 else 2

end Stop

end CommandLine

end TreeSketch
