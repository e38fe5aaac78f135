/-! # UTF-8 text in byte strings

    A byte string is cut into segments by a machine that looks at one
    byte at a time: each segment is a character, or a longest run of
    bytes that begins a character and cannot go on to end one.  Text is
    read from the segments in three ways: strictly (`decode?`), with
    U+FFFD for each stray segment (`decodeLossy`), and as far as it is
    text (`splitText`).  Writing goes character by character, so `encode`
    of a concatenation is the concatenation of the encodings. -/

namespace TreeSketch

/-- A string of bytes. -/
abbrev Bytes := List UInt8

namespace Text

/-- What a byte string is made of. -/
inductive Segment where
  /-- The encoding of one character. -/
  | char (c : Char)
  /-- Bytes that are no part of any character. -/
  | stray (bytes : Bytes)
  deriving DecidableEq, Repr

/-- A character that has begun: the bytes seen, the bits they carry, how
    many bytes follow the next one, and the range of the next one. -/
structure Begun where
  seen : Bytes
  bits : Nat
  owed : Nat
  least : UInt8
  greatest : UInt8
  deriving DecidableEq, Repr

/-- What a byte can begin. -/
inductive Opening where
  /-- The byte is a character by itself. -/
  | whole (c : Char)
  /-- The byte is the first of several. -/
  | longer (begun : Begun)
  /-- No character begins so. -/
  | never
  deriving DecidableEq, Repr

/-- What `b` begins.  The second byte is bounded so that neither overlong
    forms, nor surrogates, nor values above U+10FFFF arise. -/
def opening (b : UInt8) : Opening :=
  if b ≤ 0x7F then .whole (Char.ofNat b.toNat)
  else if b < 0xC2 then .never
  else if b ≤ 0xDF then .longer ⟨[b], b.toNat - 0xC0, 0, 0x80, 0xBF⟩
  else if b = 0xE0 then .longer ⟨[b], 0, 1, 0xA0, 0xBF⟩
  else if b = 0xED then .longer ⟨[b], 13, 1, 0x80, 0x9F⟩
  else if b ≤ 0xEF then .longer ⟨[b], b.toNat - 0xE0, 1, 0x80, 0xBF⟩
  else if b = 0xF0 then .longer ⟨[b], 0, 2, 0x90, 0xBF⟩
  else if b ≤ 0xF3 then .longer ⟨[b], b.toNat - 0xF0, 2, 0x80, 0xBF⟩
  else if b = 0xF4 then .longer ⟨[b], 4, 2, 0x80, 0x8F⟩
  else .never

/-- The segment that `b` completes between characters, if any, and what it
    leaves begun. -/
def start (b : UInt8) : List Segment × Option Begun :=
  match opening b with
  | .whole c => ([.char c], none)
  | .longer begun => ([], some begun)
  | .never => ([.stray [b]], none)

/-- One byte: the segments it completes and what it leaves begun. -/
def step : Option Begun → UInt8 → List Segment × Option Begun
  | none, b => start b
  | some begun, b =>
    if begun.least ≤ b ∧ b ≤ begun.greatest then
      let bits := begun.bits * 64 + (b.toNat - 0x80)
      match begun.owed with
      | 0 => ([.char (Char.ofNat bits)], none)
      | owed + 1 => ([], some ⟨begun.seen ++ [b], bits, owed, 0x80, 0xBF⟩)
    else
      (.stray begun.seen :: (start b).1, (start b).2)

/-- The segments of a byte string, after what has begun before it. -/
def scan : Option Begun → Bytes → List Segment
  | none, [] => []
  | some begun, [] => [.stray begun.seen]
  | state, b :: rest => (step state b).1 ++ scan (step state b).2 rest

/-- The segments of a byte string. -/
def segments (bytes : Bytes) : List Segment :=
  scan none bytes

/-- The bytes of a character. -/
def encodeChar (c : Char) : Bytes :=
  String.utf8EncodeChar c

/-- The bytes of a text. -/
def encode (text : String) : Bytes :=
  text.toList.flatMap encodeChar

theorem encode_append (a b : String) : encode (a ++ b) = encode a ++ encode b := by
  simp only [encode, String.toList_append, List.flatMap_append]

namespace Segment

/-- The bytes a segment stands for. -/
def bytes : Segment → Bytes
  | .char c => encodeChar c
  | .stray bytes => bytes

/-- The character of a segment that is one. -/
def char? : Segment → Option Char
  | .char c => some c
  | .stray _ => none

/-- The character shown for a segment: U+FFFD for stray bytes. -/
def shown : Segment → Char
  | .char c => c
  | .stray _ => '\uFFFD'

end Segment

/-- The text of a byte string that is UTF-8 throughout. -/
def decode? (bytes : Bytes) : Option String :=
  ((segments bytes).mapM Segment.char?).map String.ofList

/-- The text of a byte string, with U+FFFD for each run of stray bytes. -/
def decodeLossy (bytes : Bytes) : String :=
  String.ofList ((segments bytes).map Segment.shown)

/-- The characters before the first stray segment, and the bytes from
    there on. -/
def splitSegments : List Segment → List Char × Bytes
  | .char c :: rest => (c :: (splitSegments rest).1, (splitSegments rest).2)
  | rest => ([], rest.flatMap Segment.bytes)

/-- The longest beginning of a byte string that is text, and the bytes
    after it. -/
def splitText (bytes : Bytes) : List Char × Bytes :=
  splitSegments (segments bytes)

end Text

end TreeSketch
