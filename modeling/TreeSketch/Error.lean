import TreeSketch.Path

/-! # What can go wrong

    A cause is what the system, a path or a sink reports.  An error of the
    program holds the cause and, where a directory could not be listed,
    that directory's path.  Wording is in one place: the `message` of each
    type. -/

namespace TreeSketch

/-- A failure that the system reports by number. -/
inductive SystemError where
  | notPermitted
  | notFound
  | inputOutput
  | permissionDenied
  | alreadyExists
  | notDirectory
  | isDirectory
  | invalidArgument
  | tooManyOpenFiles
  | storageFull
  | brokenPipe
  | nameTooLong
  | linkLoop
  deriving DecidableEq, Repr

namespace SystemError

/-- Every system error, by rising number. -/
def all : List SystemError :=
  [notPermitted, notFound, inputOutput, permissionDenied, alreadyExists, notDirectory,
    isDirectory, invalidArgument, tooManyOpenFiles, storageFull, brokenPipe, nameTooLong,
    linkLoop]

/-- The number of a system error. -/
def number : SystemError → Nat
  | notPermitted => 1
  | notFound => 2
  | inputOutput => 5
  | permissionDenied => 13
  | alreadyExists => 17
  | notDirectory => 20
  | isDirectory => 21
  | invalidArgument => 22
  | tooManyOpenFiles => 24
  | storageFull => 28
  | brokenPipe => 32
  | nameTooLong => 36
  | linkLoop => 40

/-- The system error of a number. -/
def ofNumber? (n : Nat) : Option SystemError :=
  all.find? fun e => e.number == n

/-- What a system error says, without its number. -/
def text : SystemError → String
  | notPermitted => "Operation not permitted"
  | notFound => "No such file or directory"
  | inputOutput => "Input/output error"
  | permissionDenied => "Permission denied"
  | alreadyExists => "File exists"
  | notDirectory => "Not a directory"
  | isDirectory => "Is a directory"
  | invalidArgument => "Invalid argument"
  | tooManyOpenFiles => "Too many open files"
  | storageFull => "No space left on device"
  | brokenPipe => "Broken pipe"
  | nameTooLong => "File name too long"
  | linkLoop => "Too many levels of symbolic links"

/-- The whole message of a system error. -/
def message (e : SystemError) : String :=
  e.text ++ " (os error " ++ toString e.number ++ ")"

end SystemError

/-- The classes into which causes fall. -/
inductive CauseKind where
  | permissionDenied
  | notFound
  | inputOutput
  | alreadyExists
  | notDirectory
  | isDirectory
  | invalidInput
  | tooManyOpenFiles
  | storageFull
  | brokenPipe
  | invalidName
  | linkLoop
  | nothingWritten
  | other
  deriving DecidableEq, Repr

/-- Why an operation failed. -/
inductive Cause where
  /-- The system refused. -/
  | system (e : SystemError)
  /-- The path holds a NUL byte and cannot be handed to the system. -/
  | nulInPath
  /-- The sink accepts no more bytes. -/
  | nothingWritten
  /-- The reader of the sink is gone. -/
  | readerGone
  /-- Any other failure, with its own text. -/
  | other (text : String)
  deriving DecidableEq, Repr

namespace Cause

/-- The class of a cause. -/
def kind : Cause → CauseKind
  | .system .notPermitted => .permissionDenied
  | .system .notFound => .notFound
  | .system .inputOutput => .inputOutput
  | .system .permissionDenied => .permissionDenied
  | .system .alreadyExists => .alreadyExists
  | .system .notDirectory => .notDirectory
  | .system .isDirectory => .isDirectory
  | .system .invalidArgument => .invalidInput
  | .system .tooManyOpenFiles => .tooManyOpenFiles
  | .system .storageFull => .storageFull
  | .system .brokenPipe => .brokenPipe
  | .system .nameTooLong => .invalidName
  | .system .linkLoop => .linkLoop
  | .nulInPath => .invalidInput
  | .nothingWritten => .nothingWritten
  | .readerGone => .brokenPipe
  | .other _ => .other

/-- What a cause says. -/
def message : Cause → String
  | .system e => e.message
  | .nulInPath => "file name contained an unexpected NUL byte"
  | .nothingWritten => "failed to write whole buffer"
  | .readerGone => "broken pipe"
  | .other text => text

end Cause

/-- Why a drawing stopped. -/
inductive Error where
  /-- The directory at `path` could not be listed. -/
  | access (path : Path) (cause : Cause)
  /-- The sink failed. -/
  | io (cause : Cause)
  deriving DecidableEq, Repr

namespace Error

/-- The cause an error holds. -/
def cause : Error → Cause
  | .access _ cause => cause
  | .io cause => cause

/-- What an error says. -/
def message : Error → String
  | .access path _ => "cannot read directory " ++ path.shown
  | .io cause => "io error: " ++ cause.message

end Error

end TreeSketch
