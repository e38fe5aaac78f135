import TreeSketch.CommandLine.Request
import TreeSketch.CommandLine.Similarity

/-! # Reading the arguments

    Arguments are read from left to right.  A path, and a level whose
    value is an argument of its own, stay open until the next argument
    begins or there is none; then they are settled, and only then can they
    be found wrong.  A level with its value attached is settled at once.
    An unknown argument is reported before what is open. -/

namespace TreeSketch

namespace CommandLine

/-- What an argument looks like. -/
inductive Shape where
  /-- The separator: all that follows are paths. -/
  | separator
  /-- A long option, perhaps with a value after an equals sign. -/
  | long (name : Bytes) (value : Option Bytes)
  /-- Short options after one hyphen. -/
  | short (letters : Bytes)
  /-- Anything else, also a hyphen by itself. -/
  | plain
  deriving DecidableEq, Repr

namespace Shape

/-- The byte that options begin with. -/
def hyphen : UInt8 := 0x2D

/-- The byte between an option and its value. -/
def equalsSign : UInt8 := 0x3D

/-- Splits the text of a long option at its first equals sign. -/
def ofLong (text : Bytes) : Shape :=
  long (text.takeWhile (· ≠ equalsSign)) (text.dropWhile (· ≠ equalsSign)).tail?

/-- The shape of an argument. -/
def of (arg : Bytes) : Shape :=
  match arg with
  | [] => plain
  | first :: rest =>
    if first ≠ hyphen then plain
    else match rest with
      | [] => plain
      | second :: more =>
        if second ≠ hyphen then short rest
        else if more = [] then separator
        else ofLong more

end Shape

/-- An argument that has begun and is not settled. -/
inductive Open where
  /-- None. -/
  | nothing
  /-- A level, its value still to come. -/
  | levelAwaited
  /-- A level with its value. -/
  | level (value : Bytes)
  /-- A path. -/
  | path (value : Bytes)
  deriving DecidableEq, Repr

/-- What has been read so far. -/
structure Reading where
  level : Option Nat
  path : Option Path
  opened : Open
  onlyPaths : Bool
  deriving DecidableEq, Repr

namespace Reading

/-- Nothing read. -/
def start : Reading :=
  ⟨none, none, .nothing, false⟩

/-- Takes the value of a level. -/
def takeLevel (reading : Reading) (value : Bytes) : Except Stop Reading :=
  if reading.level.isSome then .error .repeatedLevel
  else match Text.decode? value with
    | none => .error .levelNotText
    | some text =>
      match readLevel text.toList with
      | .error why => .error (.invalidLevel text why)
      | .ok level => .ok { reading with level := some level, opened := .nothing }

/-- Settles what is open. -/
def settle (reading : Reading) : Except Stop Reading :=
  match reading.opened with
  | .nothing => .ok reading
  | .levelAwaited => .error .missingLevel
  | .level value => reading.takeLevel value
  | .path value =>
    if value = [] then .error .emptyPath
    else .ok { reading with path := some value, opened := .nothing }

/-- Whether a usage line after an unknown argument names the level: it has
    been given once. -/
def showsLevel (reading : Reading) : Bool :=
  match reading.opened with
  | .level _ => reading.level.isNone
  | _ => reading.level.isSome

/-- Whether the path has been given. -/
def showsPath (reading : Reading) : Bool :=
  match reading.opened with
  | .path _ => true
  | _ => reading.path.isSome

/-- The path in a usage line after an unknown argument. -/
def pathPart (reading : Reading) : PathPart :=
  if reading.showsPath then .given else .optional

/-- The path in a usage line after an unexpected value: if anything has been
    settled, it stands for both. -/
def settledPart (reading : Reading) : PathPart :=
  if reading.level.isSome || reading.path.isSome then .orLevel else .optional

/-- The level's option if a usage line names it, and the others that it
    names besides. -/
def usageFlags (level : Bool) (others : List Flag) : List Flag :=
  if level && !others.contains .level then .level :: others else others

/-- What stops at the unknown long option `name`. -/
def unknownLong (reading : Reading) (name : Bytes) : Stop :=
  let shown := Text.decodeLossy name
  match suggest? shown.toList Flag.candidates with
  | some flag =>
    .unknownArgument ("--" ++ shown) (.similar flag)
      ⟨usageFlags reading.showsLevel [flag], reading.pathPart⟩
  | none =>
    .unknownArgument ("--" ++ shown) (.separate ("--" ++ shown))
      ⟨usageFlags reading.showsLevel [], reading.pathPart⟩

/-- What stops at an unknown short option, shown as `letters`. -/
def unknownShort (letters : String) : Stop :=
  .unknownArgument ("-" ++ letters) (.separate ("-" ++ letters)) .general

/-- Takes an option that asks for a text, perhaps with a value. -/
def takeAnswer (reading : Reading) (flag : Flag) (answer : Stop) :
    Option Bytes → Except Stop Reading
  | none => do
    let _ ← reading.settle
    .error answer
  | some value =>
    .error (.unexpectedValue (Text.decodeLossy value) flag ⟨[flag], reading.settledPart⟩)

/-- Takes the level's option, perhaps with its value. -/
def takeLevelFlag (reading : Reading) : Option Bytes → Except Stop Reading
  | none => do
    let settled ← reading.settle
    .ok { settled with opened := .levelAwaited }
  | some value => do
    let settled ← reading.settle
    settled.takeLevel value

/-- Takes a long option. -/
def takeLong (reading : Reading) (name : Bytes) (value : Option Bytes) : Except Stop Reading :=
  if name = Text.encode Flag.level.name then reading.takeLevelFlag value
  else if name = Text.encode Flag.help.name then reading.takeAnswer .help .help value
  else if name = Text.encode Flag.version.name then reading.takeAnswer .version .version value
  else .error (reading.unknownLong name)

/-- The value attached to a short level: what follows the letter, without
    one equals sign in front. -/
def attached (rest : Bytes) : Option Bytes :=
  match rest with
  | [] => none
  | first :: more => some (if first = Shape.equalsSign then more else rest)

/-- Takes short options.  The first one decides: an answer, an unknown
    letter, or a level with all that follows as its value. -/
def takeShort (reading : Reading) (letters : Bytes) : Except Stop Reading :=
  match Text.splitText letters with
  | ([], stray) => .error (unknownShort (Text.decodeLossy stray))
  | (letter :: text, stray) =>
    if letter = 'L' then
      reading.takeLevelFlag (attached (Text.encode (String.ofList text) ++ stray))
    else if letter = 'h' then reading.takeAnswer .help .help none
    else if letter = 'V' then reading.takeAnswer .version .version none
    else .error (unknownShort (String.singleton letter))

/-- Takes a path, for which there is one place. -/
def takePath (reading : Reading) (arg : Bytes) : Except Stop Reading :=
  if reading.showsPath then .error (.unknownArgument (Text.decodeLossy arg) .none .general)
  else do
    let settled ← reading.settle
    .ok { settled with opened := .path arg }

/-- Takes the next argument. -/
def take (reading : Reading) (arg : Bytes) : Except Stop Reading :=
  if reading.onlyPaths then reading.takePath arg
  else match Shape.of arg with
    | .separator => .ok { reading with onlyPaths := true }
    | .long name value => reading.takeLong name value
    | .short letters => reading.takeShort letters
    | .plain =>
      if reading.opened = .levelAwaited then .ok { reading with opened := .level arg }
      else reading.takePath arg

/-- Takes all arguments and settles the last one. -/
def takeAll (reading : Reading) : List Bytes → Except Stop Reading
  | [] => reading.settle
  | arg :: rest =>
    match reading.take arg with
    | .error stop => .error stop
    | .ok next => next.takeAll rest

/-- What has been read, with the current directory and the usual level for
    what has not. -/
def request (reading : Reading) : Request :=
  ⟨reading.path.getD Path.selfPiece, reading.level.getD defaultMaxLevel⟩

end Reading

/-- Reads the arguments. -/
def read (args : List Bytes) : Except Stop Request :=
  (Reading.start.takeAll args).map Reading.request

end CommandLine

end TreeSketch
