import TreeSketch.Text.Utf8

/-! # Text without terminal controls

    Text that is shown to a person keeps no control characters but the
    blank ones, and no control sequences.  A machine reads it character by
    character: the escape character begins a sequence wherever it stands,
    and how the sequence goes on depends on its kind.  A blank control
    breaks off the sequences in which it has a meaning of its own and is
    kept; a sequence that is never finished is dropped to the end. -/

namespace TreeSketch

namespace Text

/-- Where the reader of a text with controls stands. -/
inductive ControlMode where
  /-- In plain text. -/
  | ground
  /-- After the escape character. -/
  | escape
  /-- In an escape sequence of more than two characters. -/
  | escapeIntermediate
  /-- In a control sequence, which a letter or the like ends. -/
  | sequence
  /-- In an operating system command, which the bell ends. -/
  | command
  /-- At the start of a device control string. -/
  | device
  /-- In the parameters of a device control string. -/
  | deviceParameter
  /-- After the parameters of a device control string. -/
  | deviceIntermediate
  /-- In the body of a control string. -/
  | string
  deriving DecidableEq, Repr

/-- Whether a character is a control that only sets text apart: a tab, a
    line feed, a form feed or a carriage return. -/
def isBlankControl (c : Char) : Bool :=
  c = '\t' || c = '\n' || c = '\x0c' || c = '\r'

/-- Whether a character is kept in plain text. -/
def isKept (c : Char) : Bool :=
  isBlankControl c || (0x20 ≤ c.toNat && c ≠ '\x7f')

namespace ControlMode

/-- The mode after a character that follows the escape character. -/
def afterEscape (c : Char) : ControlMode :=
  let n := c.toNat
  if c = '[' then sequence
  else if c = ']' then command
  else if c = 'P' then device
  else if c = 'X' || c = '^' || c = '_' then string
  else if 0x20 ≤ n && n ≤ 0x2F then escapeIntermediate
  else if 0x30 ≤ n && n ≤ 0x7E then ground
  else escape

/-- The mode after a character that is dropped inside a sequence. -/
def next (mode : ControlMode) (c : Char) : ControlMode :=
  let n := c.toNat
  match mode with
  | ground => ground
  | escape => afterEscape c
  | escapeIntermediate => if 0x30 ≤ n && n ≤ 0x7E then ground else escapeIntermediate
  | sequence => if 0x40 ≤ n && n ≤ 0x7E then ground else sequence
  | command => if n = 0x07 then ground else command
  | device =>
    if 0x20 ≤ n && n ≤ 0x2F then deviceIntermediate
    else if 0x30 ≤ n && n ≤ 0x3F then deviceParameter
    else if 0x40 ≤ n && n ≤ 0x7E then string
    else device
  | deviceParameter =>
    if 0x20 ≤ n && n ≤ 0x2F then deviceIntermediate
    else if 0x3C ≤ n && n ≤ 0x7E then string
    else deviceParameter
  | deviceIntermediate => if 0x30 ≤ n && n ≤ 0x7E then string else deviceIntermediate
  | string => if (encodeChar c).contains 0x9C then ground else string

/-- Whether blank controls inside a sequence of this mode are kept, and
    break it off. -/
def yieldsToBlank : ControlMode → Bool
  | escape => true
  | escapeIntermediate => true
  | sequence => true
  | _ => false

/-- Whether a character is kept, and the mode after it. -/
def step (mode : ControlMode) (c : Char) : Bool × ControlMode :=
  if c = '\x1b' then (false, escape)
  else if c = '\x18' || c = '\x1a' then (false, ground)
  else if mode = ground then (isKept c, ground)
  else if mode.yieldsToBlank && isBlankControl c then (true, ground)
  else (false, mode.next c)

end ControlMode

/-- What is kept of a text that is read from a mode on. -/
def plainFrom : ControlMode → List Char → List Char
  | _, [] => []
  | mode, c :: rest =>
    if (mode.step c).1 then c :: plainFrom (mode.step c).2 rest
    else plainFrom (mode.step c).2 rest

/-- A text without control characters and control sequences. -/
def plain (text : String) : String :=
  String.ofList (plainFrom .ground text.toList)

end Text

end TreeSketch
