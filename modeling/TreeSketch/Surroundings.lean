import TreeSketch.Program

/-! # Surroundings as lines of text

    Each line describes one thing around the program, in fields that tabs
    separate: `directory`, `file` or `pipe` with a path, `link` with a path
    and a target, or `log` with the filter's setting.  A directory may have
    a mode in octal digits as a third field. -/

namespace TreeSketch

namespace Surroundings

/-- What one line describes. -/
inductive Item where
  /-- A node of the file system. -/
  | node (addition : Addition)
  /-- The setting of the log's filter. -/
  | log (setting : Bytes)

/-- The byte between fields. -/
def tab : UInt8 := 0x09

/-- The byte after a line. -/
def newline : UInt8 := 0x0A

/-- What a line's fields describe. -/
def Item.ofFields? (fields : List Bytes) : Option Item :=
  match fields with
  | [] => none
  | kind :: values =>
    match Text.decodeLossy kind, values with
    | "directory", [path] => some (.node ⟨path, .directory .granted [], none⟩)
    | "directory", [path, mode] =>
      (Permissions.ofOctal? (Text.decodeLossy mode).toList).map fun permissions =>
        .node ⟨path, .directory .granted [], some permissions⟩
    | "file", [path] => some (.node ⟨path, .file, none⟩)
    | "pipe", [path] => some (.node ⟨path, .pipe, none⟩)
    | "link", [path, target] => some (.node ⟨path, .link target, none⟩)
    | "log", [setting] => some (.log setting)
    | _, _ => none

/-- The node an item describes. -/
def Item.addition? : Item → Option Addition
  | .node addition => some addition
  | .log _ => none

/-- The setting an item describes. -/
def Item.setting? : Item → Option Bytes
  | .node _ => none
  | .log setting => some setting

/-- The surroundings that a text describes; its last setting counts. -/
def ofText? (stamp : String) (text : Bytes) : Option Surroundings := do
  let lines := (text.splitOn newline).filter fun line => line ≠ []
  let items ← lines.mapM fun line => Item.ofFields? (line.splitOn tab)
  match FileSystem.empty.addAll (items.filterMap Item.addition?) with
  | .error _ => none
  | .ok files => some ⟨files, (items.filterMap Item.setting?).getLast?, stamp⟩

end Surroundings

end TreeSketch
