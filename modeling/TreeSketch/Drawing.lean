/-! # Lines of a drawing

    A connector stands before each entry and tells whether more siblings
    follow.  The cursor of a level holds the indent its lines share and
    the level's number; going down by a connector adds that connector's
    segment to the indent, so a line never sees what its siblings drew. -/

namespace TreeSketch

/-- The number of levels drawn when none is asked for. -/
def defaultMaxLevel : Nat :=
  3

/-- The mark before an entry. -/
inductive Connector where
  /-- More siblings follow. -/
  | tee
  /-- The last of its siblings. -/
  | corner
  deriving DecidableEq, Repr

namespace Connector

/-- The connector of an entry that is the last one, or is not. -/
def forPosition (isLast : Bool) : Connector :=
  if isLast then corner else tee

/-- How a connector is drawn. -/
def glyph : Connector → String
  | tee => "├── "
  | corner => "└── "

/-- What stands below a connector in the lines of the entry's children. -/
def childIndent : Connector → String
  | tee => "│   "
  | corner => "    "

end Connector

/-- Where the lines of one level are drawn: their indent, the level's
    number, counted from one, and the last level to be drawn. -/
structure Cursor where
  indent : String
  level : Nat
  maxLevel : Nat
  deriving DecidableEq, Repr

namespace Cursor

/-- The cursor of the first level. -/
def root (maxLevel : Nat) : Cursor :=
  ⟨"", 1, maxLevel⟩

/-- Whether the level is one that is not drawn. -/
def isExhausted (cursor : Cursor) : Bool :=
  cursor.maxLevel < cursor.level

/-- The cursor for the children of an entry drawn with `connector`. -/
def descend (cursor : Cursor) (connector : Connector) : Cursor :=
  ⟨cursor.indent ++ connector.childIndent, cursor.level + 1, cursor.maxLevel⟩

/-- The number of levels still to be drawn, this one included. -/
def levelsLeft (cursor : Cursor) : Nat :=
  cursor.maxLevel + 1 - cursor.level

theorem isExhausted_iff (cursor : Cursor) :
    cursor.isExhausted = true ↔ cursor.levelsLeft = 0 := by
  simp only [isExhausted, levelsLeft, decide_eq_true_eq]
  omega

theorem levelsLeft_descend (cursor : Cursor) (connector : Connector) :
    (cursor.descend connector).levelsLeft = cursor.levelsLeft - 1 := by
  simp only [levelsLeft, descend]
  omega

end Cursor

/-- How many entries were drawn. -/
structure Stats where
  directories : Nat
  files : Nat
  deriving DecidableEq, Repr

namespace Stats

/-- Nothing drawn. -/
def zero : Stats :=
  ⟨0, 0⟩

/-- All entries drawn. -/
def total (stats : Stats) : Nat :=
  stats.directories + stats.files

/-- One more entry, a directory or not. -/
def count (stats : Stats) (isDirectory : Bool) : Stats :=
  if isDirectory then { stats with directories := stats.directories + 1 }
  else { stats with files := stats.files + 1 }

end Stats

/-- The line above a drawing. -/
def banner (maxLevel : Nat) : String :=
  "📁 Project directory structure (max depth " ++ toString maxLevel ++ ")"

end TreeSketch
