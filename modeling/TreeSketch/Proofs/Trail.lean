import Mathlib
import TreeSketch.Walk

/-! # Trails — the entries of a drawing, without the walk

    A *spot* is an entry as it stands in a listing, between the siblings
    before it and those after it.  A *trail* is the chain of spots that
    goes down from a directory to an entry: each spot stands in the listing
    of the directory that the spot before it leads to.

    The route:

    * `Trail.Descends` says of a list of spots that it is a trail, and
      `Trail.positions` orders trails: a trail stands before those it
      begins, and two trails stand as their spots do where they part;
    * `Lister.trails` enumerates the trails of at most a given length;
    * `Lister.preOrder_trails` shows that it lists exactly the trails of
      these lengths in that order, and `PreOrder.unique` that no other
      list does.

    What an entry's line holds is read off its trail alone
    (`Trail.indent`, `Trail.line`), and of the trail only from what a
    drawing shows of it (`Trail.line_eq_of_looks`). -/

namespace TreeSketch

/-- An entry as it stands in a listing. -/
structure Spot where
  before : List Entry
  entry : Entry
  after : List Entry

namespace Spot

/-- The listing that a spot stands in. -/
def siblings (spot : Spot) : List Entry :=
  spot.before ++ spot.entry :: spot.after

/-- The number of siblings before. -/
def position (spot : Spot) : Nat :=
  spot.before.length

/-- Whether the entry is the last of its listing. -/
def isLast (spot : Spot) : Bool :=
  spot.after.isEmpty

/-- The connector before the entry. -/
def connector (spot : Spot) : Connector :=
  .forPosition spot.isLast

/-- What the entry's own line shows of its place: a corner for the last of a
    listing, a tee for the others. -/
def mark (spot : Spot) : String :=
  if spot.isLast then "└── " else "├── "

/-- What the lines below the entry show of its place: four spaces for the
    last of a listing, a bar for the others. -/
def segment (spot : Spot) : String :=
  if spot.isLast then "    " else "│   "

/-- The spots of the entries that come after some siblings, in order. -/
def onward (passed : List Entry) : List Entry → List Spot
  | [] => []
  | entry :: rest => ⟨passed, entry, rest⟩ :: onward (passed ++ [entry]) rest

/-- The spots of a listing, in order. -/
def all (entries : List Entry) : List Spot :=
  onward [] entries

theorem glyph_connector (spot : Spot) : spot.connector.glyph = spot.mark := by
  rw [connector, mark]
  cases spot.isLast with
  | true => rfl
  | false => rfl

theorem childIndent_connector (spot : Spot) : spot.connector.childIndent = spot.segment := by
  rw [connector, segment]
  cases spot.isLast with
  | true => rfl
  | false => rfl

theorem segment_cases (spot : Spot) : spot.segment = "│   " ∨ spot.segment = "    " := by
  rw [segment]
  split
  · exact Or.inr rfl
  · exact Or.inl rfl

theorem mem_onward {spot : Spot} {entries : List Entry} :
    ∀ {passed : List Entry}, spot ∈ onward passed entries ↔
      ∃ skipped, spot.before = passed ++ skipped ∧
        entries = skipped ++ spot.entry :: spot.after := by
  -- each turn moves an entry from the front of `skipped` to the end of `passed`
  induction entries with
  | nil =>
      intro passed
      constructor
      · intro h; exact nomatch h
      · rintro ⟨skipped, -, h⟩; simp at h
  | cons entry rest ih =>
      intro passed
      rw [onward, List.mem_cons, ih]
      constructor
      · rintro (rfl | ⟨skipped, hbefore, hrest⟩)
        · exact ⟨[], (List.append_nil _).symm, rfl⟩
        · exact ⟨entry :: skipped, by rw [hbefore]; simp, by rw [hrest]; rfl⟩
      · rintro ⟨skipped, hbefore, hentries⟩
        cases skipped with
        | nil =>
            obtain ⟨hentry, hafter⟩ := List.cons.inj hentries
            left
            rw [List.append_nil] at hbefore
            rw [← hbefore, hentry, hafter]
        | cons first skipped =>
            obtain ⟨hentry, hrest⟩ := List.cons.inj hentries
            right
            exact ⟨skipped, by rw [hbefore, hentry]; simp, hrest⟩

/-- The spots of a listing are those that stand in it. -/
theorem mem_all {spot : Spot} {entries : List Entry} :
    spot ∈ all entries ↔ spot.siblings = entries := by
  rw [all, mem_onward]
  constructor
  · rintro ⟨skipped, hbefore, hentries⟩
    rw [siblings, hentries, hbefore, List.nil_append]
  · intro h
    exact ⟨spot.before, rfl, h.symm⟩

theorem onward_ordered (entries : List Entry) :
    ∀ passed : List Entry,
      (onward passed entries).Pairwise (fun a b => a.position < b.position) := by
  induction entries with
  | nil => intro _; exact List.Pairwise.nil
  | cons entry rest ih =>
      intro passed
      refine List.pairwise_cons.mpr ⟨?_, ih (passed ++ [entry])⟩
      intro later hlater
      obtain ⟨skipped, hbefore, -⟩ := mem_onward.mp hlater
      show passed.length < later.before.length
      rw [hbefore, List.length_append, List.length_append]
      show passed.length < passed.length + 1 + skipped.length
      omega

end Spot

/-- What a drawing shows of a spot: whether the entry is the last of its
    listing, its name, and whether it is drawn as a directory. -/
structure Look where
  isLast : Bool
  name : String
  isDirectory : Bool
  deriving DecidableEq, Repr

namespace Spot

/-- What a drawing shows of a spot. -/
def look (spot : Spot) : Look :=
  ⟨spot.isLast, spot.entry.name, spot.entry.isDirectory⟩

variable {a b : Spot}

theorem mark_eq_of_look (h : a.look = b.look) : a.mark = b.mark := by
  rw [mark, mark, show a.isLast = b.isLast from congrArg Look.isLast h]

theorem displayName_eq_of_look (h : a.look = b.look) :
    a.entry.displayName = b.entry.displayName := by
  rw [Entry.displayName_eq, Entry.displayName_eq,
    show a.entry.name = b.entry.name from congrArg Look.name h,
    show a.entry.isDirectory = b.entry.isDirectory from congrArg Look.isDirectory h]

end Spot

/-- That a directory can be listed, and its entries. -/
def Lister.Lists (list : Lister) (dir : Path) (entries : List Entry) : Prop :=
  ∃ listing, list dir = .ok listing ∧ listing.entries = entries

/-- The spots from a directory down to an entry below it; the empty trail
    ends at the directory itself. -/
abbrev Trail := List Spot

namespace Trail

/-- That a trail goes down from a directory: its first spot stands in the
    directory's listing, and the rest goes down from that spot's entry,
    which is a directory if the trail goes on. -/
inductive Descends (list : Lister) : Path → Trail → Prop where
  | stay (dir : Path) : Descends list dir []
  | enter {dir : Path} {spot : Spot} {rest : Trail}
      (hlists : list.Lists dir spot.siblings)
      (hdir : rest ≠ [] → spot.entry.isDirectory = true)
      (hrest : Descends list spot.entry.path rest) :
      Descends list dir (spot :: rest)

/-- Where the spots of a trail stand in their listings. -/
def positions (trail : Trail) : List Nat :=
  trail.map Spot.position

/-- What the lines below a trail's end begin with: a segment for each
    spot. -/
def indent (trail : Trail) : String :=
  String.join (trail.map Spot.segment)

/-- The line of a trail's last entry; the empty trail has none. -/
def line (trail : Trail) : String :=
  match trail.getLast? with
  | none => ""
  | some spot =>
    indent trail.dropLast ++ spot.mark ++ spot.entry.displayName ++ "\n"

/-- The bytes of trails' lines, one after another. -/
def lines (trails : List Trail) : Bytes :=
  trails.flatMap fun trail => Text.encode (line trail)

/-- Whether a trail ends at a directory. -/
def isDirectory (trail : Trail) : Bool :=
  match trail.getLast? with
  | none => true
  | some spot => spot.entry.isDirectory

/-- The path of what a trail from `dir` ends at. -/
def target (dir : Path) (trail : Trail) : Path :=
  match trail.getLast? with
  | none => dir
  | some spot => spot.entry.path

theorem lines_append (before after : List Trail) :
    lines (before ++ after) = lines before ++ lines after :=
  List.flatMap_append

theorem lines_cons (trail : Trail) (rest : List Trail) :
    lines (trail :: rest) = Text.encode trail.line ++ lines rest :=
  List.flatMap_cons

/-- What a drawing shows of a trail. -/
def looks (trail : Trail) : List Look :=
  trail.map Spot.look

theorem line_concat (trail : Trail) (spot : Spot) :
    line (trail ++ [spot]) = indent trail ++ spot.mark ++ spot.entry.displayName ++ "\n" := by
  rw [line, List.getLast?_concat, List.dropLast_concat]

theorem looks_concat (trail : Trail) (spot : Spot) :
    looks (trail ++ [spot]) = looks trail ++ [spot.look] :=
  List.map_append

theorem isDirectory_concat (trail : Trail) (spot : Spot) :
    isDirectory (trail ++ [spot]) = spot.entry.isDirectory := by
  rw [isDirectory, List.getLast?_concat]

theorem target_concat (dir : Path) (trail : Trail) (spot : Spot) :
    target dir (trail ++ [spot]) = spot.entry.path := by
  rw [target, List.getLast?_concat]

section Looks

variable {a b : Trail}

theorem length_eq_of_looks (h : looks a = looks b) : a.length = b.length := by
  simpa [looks] using congrArg List.length h

/-- Trails that look alike are both empty, or go on alike to ends that look
    alike. -/
theorem nil_or_concat_of_looks (h : looks a = looks b) :
    a = [] ∧ b = [] ∨ ∃ above spot above' spot', a = above ++ [spot] ∧ b = above' ++ [spot'] ∧
      looks above = looks above' ∧ spot.look = spot'.look := by
  rcases List.eq_nil_or_concat a with rfl | ⟨above, spot, rfl⟩
  · exact Or.inl ⟨rfl, List.map_eq_nil_iff.mp h.symm⟩
  · rcases List.eq_nil_or_concat b with rfl | ⟨above', spot', rfl⟩
    · exact absurd h (by simp [looks])
    · rw [List.concat_eq_append, List.concat_eq_append, looks_concat, looks_concat] at h
      obtain ⟨habove, hspot⟩ := List.append_inj' h rfl
      exact Or.inr ⟨above, spot, above', spot', List.concat_eq_append, List.concat_eq_append,
        habove, List.singleton_inj.mp hspot⟩

theorem isDirectory_eq_of_looks (h : looks a = looks b) : isDirectory a = isDirectory b := by
  rcases nil_or_concat_of_looks h with ⟨rfl, rfl⟩ | ⟨above, spot, above', spot', rfl, rfl, -, hspot⟩
  · rfl
  · rw [isDirectory_concat, isDirectory_concat]
    exact congrArg Look.isDirectory hspot

/-- An indent is read off what the drawing shows. -/
theorem indent_eq_looks (trail : Trail) :
    indent trail =
      String.join ((looks trail).map fun look => if look.isLast then "    " else "│   ") := by
  rw [looks, List.map_map]
  rfl

/-- Trails that look alike have the same line. -/
theorem line_eq_of_looks (h : looks a = looks b) : line a = line b := by
  rcases nil_or_concat_of_looks h with
    ⟨rfl, rfl⟩ | ⟨above, spot, above', spot', rfl, rfl, habove, hspot⟩
  · rfl
  · rw [line_concat, line_concat, indent_eq_looks, indent_eq_looks, habove,
      Spot.mark_eq_of_look hspot, Spot.displayName_eq_of_look hspot]

/-- So trails that look alike one by one have the same lines. -/
theorem lines_eq_of_looks {as bs : List Trail}
    (h : List.Forall₂ (fun a b => looks a = looks b) as bs) : lines as = lines bs := by
  induction h with
  | nil => rfl
  | cons hlooks _ ih => rw [lines_cons, lines_cons, line_eq_of_looks hlooks, ih]

end Looks

theorem isDirectory_cons {spot : Spot} {trail : Trail} (h : trail ≠ []) :
    isDirectory (spot :: trail) = isDirectory trail := by
  obtain ⟨next, rest, rfl⟩ := List.exists_cons_of_ne_nil h
  rfl

theorem isDirectory_cons_of_directory {spot : Spot} (hdir : spot.entry.isDirectory = true)
    (trail : Trail) : isDirectory (spot :: trail) = isDirectory trail := by
  cases trail with
  | nil => exact hdir
  | cons next rest => rfl

theorem target_cons (dir : Path) (spot : Spot) (trail : Trail) :
    target dir (spot :: trail) = target spot.entry.path trail := by
  cases trail with
  | nil => rfl
  | cons next rest => rfl

/-- A trail goes one spot further down exactly where it ends at a directory
    whose listing the spot stands in. -/
theorem descends_concat {list : Lister} {spot : Spot} {trail : Trail} :
    ∀ {dir : Path}, Descends list dir (trail ++ [spot]) ↔
      Descends list dir trail ∧ isDirectory trail = true ∧
        list.Lists (target dir trail) spot.siblings := by
  induction trail with
  | nil =>
      intro dir
      constructor
      · intro h
        cases h with
        | enter hlists _ _ => exact ⟨.stay dir, rfl, hlists⟩
      · rintro ⟨-, -, hlists⟩
        exact .enter hlists (fun h => absurd rfl h) (.stay _)
  | cons first rest ih =>
      intro dir
      rw [target_cons]
      constructor
      · intro h
        cases h with
        | enter hlists hdir hrest =>
            obtain ⟨hdesc, hrestdir, hspot⟩ := ih.mp hrest
            have hfirst : first.entry.isDirectory = true := hdir (by simp)
            refine ⟨.enter hlists (fun _ => hfirst) hdesc, ?_, hspot⟩
            by_cases hnil : rest = []
            · rw [hnil]
              exact hfirst
            · rw [isDirectory_cons hnil]
              exact hrestdir
      · rintro ⟨hdesc, hdir, hspot⟩
        cases hdesc with
        | enter hlists hgoes hrest =>
            by_cases hnil : rest = []
            · subst hnil
              exact .enter hlists (fun _ => hdir) (ih.mpr ⟨hrest, rfl, hspot⟩)
            · rw [isDirectory_cons hnil] at hdir
              exact .enter hlists (fun _ => hgoes hnil) (ih.mpr ⟨hrest, hdir, hspot⟩)

/-- The trails that begin with a spot: its own, then those that go on below
    a directory. -/
def through (below : Path → List Trail) (spot : Spot) : List Trail :=
  [spot] :: if spot.entry.isDirectory then (below spot.entry.path).map (spot :: ·) else []

theorem mem_through {below : Path → List Trail} {spot : Spot} {trail : Trail} :
    trail ∈ through below spot ↔
      ∃ rest, trail = spot :: rest ∧
        (rest = [] ∨ spot.entry.isDirectory = true ∧ rest ∈ below spot.entry.path) := by
  rw [through, List.mem_cons]
  constructor
  · rintro (rfl | hbelow)
    · exact ⟨[], rfl, Or.inl rfl⟩
    · by_cases hdir : spot.entry.isDirectory = true
      · rw [if_pos hdir] at hbelow
        obtain ⟨rest, hrest, rfl⟩ := List.mem_map.mp hbelow
        exact ⟨rest, rfl, Or.inr ⟨hdir, hrest⟩⟩
      · rw [if_neg hdir] at hbelow
        exact nomatch hbelow
  · rintro ⟨rest, rfl, rfl | ⟨hdir, hrest⟩⟩
    · exact Or.inl rfl
    · rw [if_pos hdir]
      exact Or.inr (List.mem_map.mpr ⟨rest, hrest, rfl⟩)

/-- A spot's own trail comes first, and the others in their order. -/
theorem through_ordered {below : Path → List Trail} {spot : Spot}
    (hne : ∀ trail ∈ below spot.entry.path, trail ≠ [])
    (hbelow : (below spot.entry.path).Pairwise fun a b => a.positions < b.positions) :
    (through below spot).Pairwise fun a b => a.positions < b.positions := by
  refine List.pairwise_cons.mpr ⟨?_, ?_⟩
  · intro later hlater
    split at hlater
    · obtain ⟨rest, hrest, rfl⟩ := List.mem_map.mp hlater
      obtain ⟨next, rest', rfl⟩ := List.exists_cons_of_ne_nil (hne rest hrest)
      exact List.cons_lt_cons_self.mpr (List.nil_lt_cons _ _)
    · exact nomatch hlater
  · split
    · refine List.pairwise_map.mpr (hbelow.imp ?_)
      intro a b hab
      exact List.cons_lt_cons_self.mpr hab
    · exact List.Pairwise.nil

end Trail

/-- That `trails` is the pre-order of a directory's entries down to a depth:
    it holds exactly the trails of these lengths, each before those with
    greater positions. -/
structure PreOrder (list : Lister) (depth : Nat) (dir : Path) (trails : List Trail) : Prop where
  mem_iff : ∀ trail, trail ∈ trails ↔
    1 ≤ trail.length ∧ trail.length ≤ depth ∧ trail.Descends list dir
  ordered : trails.Pairwise fun a b => a.positions < b.positions

namespace Lister

/-- The trails down from a directory, of at most a number of spots. -/
def trails (list : Lister) : Nat → Path → List Trail
  | 0, _ => []
  | depth + 1, dir =>
    match list dir with
    | .error _ => []
    | .ok listing => (Spot.all listing.entries).flatMap (Trail.through (list.trails depth))

theorem trails_of_error {list : Lister} {dir : Path} {e : Error} (h : list dir = .error e)
    (depth : Nat) : list.trails depth dir = [] := by
  cases depth with
  | zero => rfl
  | succ depth => rw [trails, h]

theorem trails_of_ok {list : Lister} {dir : Path} {listing : Listing}
    (h : list dir = .ok listing) (depth : Nat) :
    list.trails (depth + 1) dir =
      (Spot.all listing.entries).flatMap (Trail.through (list.trails depth)) := by
  rw [trails, h]

/-- A trail of the deeper enumeration is a spot of the directory's listing,
    with nothing or with a trail below its entry. -/
theorem mem_trails_succ {list : Lister} {depth : Nat} {dir : Path} {trail : Trail} :
    trail ∈ list.trails (depth + 1) dir ↔
      ∃ spot rest, trail = spot :: rest ∧ list.Lists dir spot.siblings ∧
        (rest = [] ∨ spot.entry.isDirectory = true ∧ rest ∈ list.trails depth spot.entry.path) := by
  cases hlist : list dir with
  | error e =>
      rw [trails_of_error hlist]
      constructor
      · intro h; exact nomatch h
      · rintro ⟨spot, rest, -, ⟨listing, hok, -⟩, -⟩
        exact nomatch hlist.symm.trans hok
  | ok listing =>
      rw [trails_of_ok hlist, List.mem_flatMap]
      constructor
      · rintro ⟨spot, hspot, htrail⟩
        obtain ⟨rest, hcons, hrest⟩ := Trail.mem_through.mp htrail
        exact ⟨spot, rest, hcons, ⟨listing, hlist, (Spot.mem_all.mp hspot).symm⟩, hrest⟩
      · rintro ⟨spot, rest, hcons, ⟨listing', hok, hentries⟩, hrest⟩
        have hsame : listing' = listing := Except.ok.inj (hok.symm.trans hlist)
        refine ⟨spot, Spot.mem_all.mpr ?_, Trail.mem_through.mpr ⟨rest, hcons, hrest⟩⟩
        rw [← hentries, hsame]

/-- The enumeration holds the trails of the lengths asked for, and no
    others. -/
theorem mem_trails {list : Lister} {depth : Nat} :
    ∀ {dir : Path} {trail : Trail}, trail ∈ list.trails depth dir ↔
      1 ≤ trail.length ∧ trail.length ≤ depth ∧ trail.Descends list dir := by
  induction depth with
  | zero =>
      intro dir trail
      constructor
      · intro h; exact nomatch h
      · rintro ⟨hone, hzero, -⟩; omega
  | succ depth ih =>
      intro dir trail
      rw [mem_trails_succ]
      constructor
      · rintro ⟨spot, rest, rfl, hlists, rfl | ⟨hdir, hrest⟩⟩
        · refine ⟨Nat.le_refl 1, Nat.succ_le_succ (Nat.zero_le depth), ?_⟩
          exact .enter hlists (fun h => absurd rfl h) (.stay _)
        · obtain ⟨-, hlen, hdesc⟩ := ih.mp hrest
          exact ⟨Nat.succ_le_succ (Nat.zero_le _), Nat.succ_le_succ hlen,
            .enter hlists (fun _ => hdir) hdesc⟩
      · rintro ⟨hone, hlen, hdesc⟩
        cases hdesc with
        | stay => exact absurd hone (by decide)
        | @enter _ spot rest hlists hdir hrest =>
            refine ⟨spot, rest, rfl, hlists, ?_⟩
            by_cases hnil : rest = []
            · exact Or.inl hnil
            · refine Or.inr ⟨hdir hnil, ih.mpr ⟨?_, Nat.le_of_succ_le_succ hlen, hrest⟩⟩
              exact List.length_pos_iff.mpr hnil

theorem ne_nil_of_mem_trails {list : Lister} {depth : Nat} {dir : Path} {trail : Trail}
    (h : trail ∈ list.trails depth dir) : trail ≠ [] :=
  List.length_pos_iff.mp (mem_trails.mp h).1

/-- Each trail is enumerated before those with greater positions. -/
theorem trails_ordered (list : Lister) (depth : Nat) :
    ∀ dir : Path, (list.trails depth dir).Pairwise fun a b => a.positions < b.positions := by
  induction depth with
  | zero => intro _; exact List.Pairwise.nil
  | succ depth ih =>
      intro dir
      cases hlist : list dir with
      | error e => rw [trails_of_error hlist]; exact List.Pairwise.nil
      | ok listing =>
          rw [trails_of_ok hlist]
          refine List.pairwise_flatMap.mpr ⟨?_, ?_⟩
          · -- two trails through one spot stand as they do below it
            intro spot _
            exact Trail.through_ordered (fun _ => ne_nil_of_mem_trails) (ih spot.entry.path)
          · -- two trails through different spots stand as their first spots do
            refine (Spot.onward_ordered listing.entries []).imp ?_
            intro a b hab x hx y hy
            obtain ⟨xs, rfl, -⟩ := Trail.mem_through.mp hx
            obtain ⟨ys, rfl, -⟩ := Trail.mem_through.mp hy
            exact List.cons_lt_cons_iff.mpr (Or.inl hab)

/-- **PRE-ORDER**: the enumeration holds exactly the trails of the lengths
    asked for, in the order of their positions. -/
theorem preOrder_trails (list : Lister) (depth : Nat) (dir : Path) :
    PreOrder list depth dir (list.trails depth dir) :=
  ⟨fun _ => mem_trails, list.trails_ordered depth dir⟩

end Lister

/-- No other list is the pre-order. -/
theorem PreOrder.unique {list : Lister} {depth : Nat} {dir : Path} {a b : List Trail}
    (ha : PreOrder list depth dir a) (hb : PreOrder list depth dir b) : a = b := by
  -- in strict order nothing stands twice, and what holds the same stands alike
  have hnodup : ∀ {ts : List Trail}, ts.Pairwise (fun x y => x.positions < y.positions) →
      ts.Nodup := by
    intro ts hts
    refine hts.imp ?_
    rintro x y hlt rfl
    exact List.lt_irrefl _ hlt
  have hperm : a.Perm b := (List.perm_ext_iff_of_nodup (hnodup ha.ordered)
    (hnodup hb.ordered)).mpr fun trail => (ha.mem_iff trail).trans (hb.mem_iff trail).symm
  refine hperm.eq_of_pairwise ?_ ha.ordered hb.ordered
  intro x y _ _ hxy hyx
  exact absurd hyx (List.lt_asymm hxy)

/-- Levels below the deepest trail make no difference. -/
theorem Lister.trails_eq_of_length_le {list : Lister} {root : Path} {depth m n : Nat}
    (h : ∀ trail, Trail.Descends list root trail → trail.length ≤ depth)
    (hm : depth ≤ m) (hn : depth ≤ n) : list.trails m root = list.trails n root := by
  have horder := list.preOrder_trails m root
  refine PreOrder.unique ⟨?_, horder.ordered⟩ (list.preOrder_trails n root)
  intro trail
  rw [horder.mem_iff]
  constructor
  · rintro ⟨hone, -, hdesc⟩
    exact ⟨hone, Nat.le_trans (h trail hdesc) hn, hdesc⟩
  · rintro ⟨hone, -, hdesc⟩
    exact ⟨hone, Nat.le_trans (h trail hdesc) hm, hdesc⟩

end TreeSketch
