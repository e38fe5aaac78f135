import TreeSketch.Log.Event

/-! # Lines of the log

    A line holds a time stamp, the severity, the target, the message and
    the fields.  Control characters in the message that a terminal would
    act on are written as escapes. -/

namespace TreeSketch

namespace Log

/-- The hexadecimal digits of a number below 256. -/
def hexByte (n : Nat) : List Char :=
  [Nat.digitChar (n / 16), Nat.digitChar (n % 16)]

/-- A character as messages write it. -/
def escapeChar (c : Char) : List Char :=
  if c = '\x1b' || c = '\x07' || c = '\x08' || c = '\x0c' || c = '\x7f' then
    '\\' :: 'x' :: hexByte c.toNat
  else if 0x80 ≤ c.toNat && c.toNat ≤ 0x9F then
    '\\' :: 'u' :: '\x7b' :: hexByte c.toNat ++ ['\x7d']
  else [c]

/-- A message as lines write it. -/
def escape (message : String) : String :=
  String.ofList (message.toList.flatMap escapeChar)

/-- The name of a severity, five characters wide. -/
def Severity.padded (severity : Severity) : String :=
  String.ofList (List.replicate (5 - severity.name.length) ' ') ++ severity.name

end Log

namespace Event

/-- A field as lines write it, after a blank. -/
def fieldText (field : String × Log.Value) : String :=
  " " ++ field.1 ++ "=" ++ field.2.shown

/-- The line of an event, stamped with `stamp`. -/
def line (stamp : String) (event : Event) : String :=
  stamp ++ " " ++ event.severity.padded ++ " " ++ event.target ++ ": "
    ++ Log.escape event.message ++ String.join (event.fields.map fieldText) ++ "\n"

end Event

end TreeSketch
