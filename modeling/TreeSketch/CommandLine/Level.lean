import TreeSketch.Drawing

/-! # Reading a level

    A level is written as a decimal integer with a sign or none.  Its
    digits are read from the left, and the first that is no digit or leads
    out of the 64-bit range is what is reported; only then is the integer
    held against the range of levels. -/

namespace TreeSketch

namespace CommandLine

/-- The greatest level that can be asked for. -/
def greatestLevel : Nat :=
  4294967295

/-- Why a text is not a level. -/
inductive LevelError where
  | empty
  | invalidDigit
  | tooLarge
  | tooSmall
  | outOfRange (n : Int)
  deriving DecidableEq, Repr

namespace LevelError

/-- What an error says. -/
def message : LevelError → String
  | empty => "cannot parse integer from empty string"
  | invalidDigit => "invalid digit found in string"
  | tooLarge => "number too large to fit in target type"
  | tooSmall => "number too small to fit in target type"
  | outOfRange n => toString n ++ " is not in 0..=" ++ toString greatestLevel

end LevelError

/-- The greatest integer of 64 bits. -/
def greatestInteger : Int :=
  9223372036854775807

/-- The least integer of 64 bits. -/
def leastInteger : Int :=
  -9223372036854775808

/-- The value of a decimal digit. -/
def digit? (c : Char) : Option Nat :=
  if c.isDigit then some (c.toNat - '0'.toNat) else none

/-- Reads digits after those of `n`, counting upwards. -/
def readUp (n : Int) : List Char → Except LevelError Int
  | [] => .ok n
  | c :: rest =>
    match digit? c with
    | none => .error .invalidDigit
    | some d =>
      if greatestInteger < 10 * n + d then .error .tooLarge else readUp (10 * n + d) rest

/-- Reads digits after those of `n`, counting downwards. -/
def readDown (n : Int) : List Char → Except LevelError Int
  | [] => .ok n
  | c :: rest =>
    match digit? c with
    | none => .error .invalidDigit
    | some d =>
      if 10 * n - d < leastInteger then .error .tooSmall else readDown (10 * n - d) rest

/-- Reads an integer with a sign or none. -/
def readInteger : List Char → Except LevelError Int
  | [] => .error .empty
  | ['+'] => .error .invalidDigit
  | ['-'] => .error .invalidDigit
  | '+' :: digits => readUp 0 digits
  | '-' :: digits => readDown 0 digits
  | digits => readUp 0 digits

/-- Reads a level. -/
def readLevel (text : List Char) : Except LevelError Nat :=
  match readInteger text with
  | .error e => .error e
  | .ok n => if 0 ≤ n ∧ n ≤ greatestLevel then .ok n.toNat else .error (.outOfRange n)

end CommandLine

end TreeSketch
