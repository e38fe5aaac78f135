import TreeSketch.Drawing
import TreeSketch.Listing
import TreeSketch.Log.Event
import TreeSketch.Sink

/-! # The walk that draws a tree

    A walk lists a directory, draws a line for each entry, and below each
    directory's line draws that directory in the same way, one level
    deeper.  It carries a writer, the counts and the log, and stops at the
    first error with all three as they are by then.  Directories are
    listed by a function that is given, so a walk knows nothing of file
    systems; its recursion is on the number of levels left. -/

namespace TreeSketch

/-- How directories are listed. -/
abbrev Lister :=
  Path → Except Error Listing

/-- What a walk has done so far; of the events the newest stands first. -/
structure Progress (σ : Type) where
  sink : σ
  stats : Stats
  newest : List Event
  deriving DecidableEq, Repr

namespace Progress

variable {σ : Type}

/-- Nothing done, with a writer to draw into. -/
def start (sink : σ) : Progress σ :=
  ⟨sink, .zero, []⟩

/-- The events so far, in order. -/
def log (progress : Progress σ) : List Event :=
  progress.newest.reverse

/-- Adds events to the log. -/
def record (progress : Progress σ) (events : List Event) : Progress σ :=
  { progress with newest := events.reverseAux progress.newest }

@[simp]
theorem log_record (progress : Progress σ) (events : List Event) :
    (progress.record events).log = progress.log ++ events := by
  simp [log, record, List.reverseAux_eq]

@[simp]
theorem record_record (progress : Progress σ) (a b : List Event) :
    (progress.record a).record b = progress.record (a ++ b) := by
  simp [record, List.reverseAux_eq]

end Progress

/-- A step of a walk, which may stop it. -/
abbrev Walk (σ : Type) :=
  EStateM Error (Progress σ)

namespace Walk

variable {σ : Type} [Writer σ]

/-- Writes a text. -/
def write (text : String) : Walk σ Unit := fun progress =>
  match Writer.write progress.sink (Text.encode text) with
  | (sink, none) => .ok () { progress with sink := sink }
  | (sink, some cause) => .error (.io cause) { progress with sink := sink }

/-- Adds events to the log. -/
def record (events : List Event) : Walk σ Unit :=
  modify fun progress => progress.record events

/-- Counts an entry. -/
def count (entry : Entry) : Walk σ Unit :=
  modify fun progress => { progress with stats := progress.stats.count entry.isDirectory }

/-- Lists a directory for a level, and tells the log. -/
def openDirectory (list : Lister) (dir : Path) (level : Nat) : Walk σ (List Entry) :=
  match list dir with
  | .error e => throw e
  | .ok listing => do
    record (listing.unexamined.map fun (path, cause) => .unexamined path cause)
    record [.listing dir level listing.entries.length]
    return listing.entries

/-- Draws the line of an entry. -/
def drawLine (cursor : Cursor) (connector : Connector) (entry : Entry) : Walk σ Unit := do
  write cursor.indent
  write connector.glyph
  write entry.displayName
  write "\n"

/-- Draws entries that are the last of their directory, and what is below
    each of them by `below`. -/
def drawEntries (below : Path → Cursor → Walk σ Unit) (cursor : Cursor) : List Entry → Walk σ Unit
  | [] => return
  | entry :: rest => do
    let connector := Connector.forPosition rest.isEmpty
    drawLine cursor connector entry
    count entry
    if entry.isDirectory then below entry.path (cursor.descend connector)
    drawEntries below cursor rest

/-- Draws the directory at `dir`, and below it, for a number of levels. -/
def drawLevels (list : Lister) : Nat → Path → Cursor → Walk σ Unit
  | 0, _, _ => return
  | left + 1, dir, cursor => do
    let entries ← openDirectory list dir cursor.level
    drawEntries (drawLevels list left) cursor entries

/-- Draws the directory at `dir` where the cursor stands, and below it as
    far as the cursor allows. -/
def drawLevel (list : Lister) (dir : Path) (cursor : Cursor) : Walk σ Unit :=
  drawLevels list cursor.levelsLeft dir cursor

/-- Draws the tree at `root`, and tells the log when it is complete. -/
def drawTree (list : Lister) (maxLevel : Nat) (root : Path) : Walk σ Stats := do
  drawLevel list root (Cursor.root maxLevel)
  let progress ← get
  record [.rendered root progress.stats.directories progress.stats.files]
  return progress.stats

/-- Entries are drawn alike by what agrees on the cursors below them. -/
theorem drawEntries_congr {below below' : Path → Cursor → Walk σ Unit} {cursor : Cursor}
    (h : ∀ path connector,
      below path (cursor.descend connector) = below' path (cursor.descend connector))
    (entries : List Entry) :
    drawEntries below cursor entries = drawEntries below' cursor entries := by
  induction entries with
  | nil => rfl
  | cons entry rest ih => simp only [drawEntries, h, ih]

/-- A level past the last one draws nothing and lists nothing; any other
    lists its directory and draws the entries, each directory's own level
    below it. -/
theorem drawLevel_eq (list : Lister) (dir : Path) (cursor : Cursor) :
    (drawLevel list dir cursor : Walk σ Unit) =
      if cursor.isExhausted then pure ()
      else openDirectory list dir cursor.level >>= drawEntries (drawLevel list) cursor := by
  rw [drawLevel]
  cases hleft : cursor.levelsLeft with
  | zero => rw [if_pos ((Cursor.isExhausted_iff cursor).mpr hleft)]; rfl
  | succ left =>
    have hopen : ¬ cursor.isExhausted = true := fun he => by
      have := (Cursor.isExhausted_iff cursor).mp he
      omega
    have hbelow : ∀ entries, (drawEntries (drawLevels list left) cursor entries : Walk σ Unit) =
        drawEntries (drawLevel list) cursor entries :=
      drawEntries_congr fun path connector => by
        rw [drawLevel, Cursor.levelsLeft_descend, hleft, Nat.add_sub_cancel]
    rw [if_neg hopen, ← funext hbelow]
    rfl

end Walk

/-- What a walk leaves: its result, the writer and the log. -/
structure Rendering (σ : Type) where
  result : Except Error Stats
  sink : σ
  log : List Event

/-- Draws the tree at `root` into a writer. -/
def renderInto {σ : Type} [Writer σ] (list : Lister) (maxLevel : Nat) (root : Path) (sink : σ) :
    Rendering σ :=
  match (Walk.drawTree list maxLevel root).run (.start sink) with
  | .ok stats progress => ⟨.ok stats, progress.sink, progress.log⟩
  | .error e progress => ⟨.error e, progress.sink, progress.log⟩

/-- Draws the tree at `root` into a sink. -/
def render (list : Lister) (maxLevel : Nat) (root : Path) (sink : Sink) : Rendering Sink :=
  renderInto list maxLevel root sink

/-- A tree drawn as a text. -/
structure TextRendering where
  result : Except Error String
  log : List Event

/-- Draws the tree at `root` as a text. -/
def renderToString (list : Lister) (maxLevel : Nat) (root : Path) : TextRendering :=
  let rendering := render list maxLevel root .unlimited
  ⟨rendering.result.map fun _ => Text.decodeLossy rendering.sink.held, rendering.log⟩

end TreeSketch
