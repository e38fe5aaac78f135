import Mathlib
import TreeSketch.CommandLine.Reading
import TreeSketch.Proofs.Numeral
import TreeSketch.Proofs.Utf8

/-! # What the arguments may be

    The arguments are items in any order, and each item is written in one
    word or in two (`Item.Written`); after a separator every word is a path
    (`Sentence`).  Reading does not see items: what a word begins stays
    open until the next word, and what is wrong with it is found then or at
    the end.  The route:

    * one word is a separator, or gives a level, or is plain, or is refused
      whatever has been read (`word_cases`);
    * what is open can be settled at once: that changes the error, if there
      is one, and never what is found (`finds_iff_of_settle`);
    * so a word or two that begin a reading add just the item they write,
      and the rest is read from there (`finds_iff`).

    So reading succeeds exactly on the sentences with no more than one level
    and no more than one path (`read_eq_ok_iff`). -/

namespace TreeSketch.CommandLine

open Shape (hyphen equalsSign)

/-! ## Items -/

/-- What arguments may give. -/
inductive Item where
  | level (n : Nat)
  | path (word : Path)
  deriving DecidableEq, Repr

namespace Item

/-- The level that an item gives. -/
def level? : Item → Option Nat
  | .level n => some n
  | .path _ => none

/-- The path that an item gives. -/
def path? : Item → Option Path
  | .level _ => none
  | .path word => some word

end Item

/-- That a value is the text of a level. -/
def IsLevel (value : Bytes) (n : Nat) : Prop :=
  ∃ text : String, value = Text.encode text ∧ Numeral text.toList n ∧ n ≤ greatestLevel

/-- That a word gives a level, its value attached or, if there is none, in
    the next word. -/
inductive LevelWord : Bytes → Option Bytes → Prop where
  | short : LevelWord (Text.encode "-L") none
  | long : LevelWord (Text.encode "--level") none
  | attached {first : UInt8} {more : Bytes} (h : first ≠ equalsSign) :
      LevelWord (Text.encode "-L" ++ first :: more) (some (first :: more))
  | shortEquals {value : Bytes} : LevelWord (Text.encode "-L=" ++ value) (some value)
  | longEquals {value : Bytes} : LevelWord (Text.encode "--level=" ++ value) (some value)

/-- That a word is not an option: it is a hyphen by itself or begins with
    none. -/
def IsPlain (word : Bytes) : Prop :=
  word = [hyphen] ∨ word.head? ≠ some hyphen

/-- That words before the separator are an item. -/
inductive Item.Written : Item → List Bytes → Prop where
  | apart {word value : Bytes} {n : Nat} (hword : LevelWord word none)
      (hvalue : value.head? ≠ some hyphen) (h : IsLevel value n) : Written (.level n) [word, value]
  | together {word value : Bytes} {n : Nat} (hword : LevelWord word (some value))
      (h : IsLevel value n) : Written (.level n) [word]
  | path {word : Bytes} (hne : word ≠ []) (h : IsPlain word) : Written (.path word) [word]

/-- That arguments are items, one after the other.  A separator makes paths
    of all words after it. -/
inductive Sentence : List Item → List Bytes → Prop where
  | nil : Sentence [] []
  | item {item : Item} {items : List Item} {words args : List Bytes} (hwords : item.Written words)
      (h : Sentence items args) : Sentence (item :: items) (words ++ args)
  | separator {paths : List Bytes} (h : ∀ path ∈ paths, path ≠ []) :
      Sentence (paths.map .path) (Text.encode "--" :: paths)

/-! ## One word -/

/-- That nothing that has been read before a word makes it one to take. -/
def IsRefused (word : Bytes) : Prop :=
  ∀ (reading : Reading) (next : Reading), reading.onlyPaths = false → reading.take word ≠ .ok next

theorem bind_eq_ok_iff {α β : Type} {outcome : Except Stop α} {f : α → Except Stop β} {b : β} :
    (outcome >>= f) = .ok b ↔ ∃ a, outcome = .ok a ∧ f a = .ok b := by
  cases outcome with
  | error stop => exact iff_of_false (fun h => nomatch h) fun ⟨_, h, _⟩ => nomatch h
  | ok a =>
      constructor
      · intro h
        exact ⟨a, rfl, h⟩
      · rintro ⟨b, hb, h⟩
        rw [Except.ok.inj hb]
        exact h

namespace Reading

variable {reading next : Reading}

theorem take_of_onlyPaths (h : reading.onlyPaths = true) (word : Bytes) :
    reading.take word = reading.takePath word :=
  if_pos h

theorem take_of_shape (h : reading.onlyPaths = false) (word : Bytes) :
    reading.take word = match Shape.of word with
      | .separator => .ok { reading with onlyPaths := true }
      | .long name value => reading.takeLong name value
      | .short letters => reading.takeShort letters
      | .plain =>
        if reading.opened = .levelAwaited then .ok { reading with opened := .level word }
        else reading.takePath word :=
  if_neg (by rw [h]; exact Bool.false_ne_true)

theorem take_separator (h : reading.onlyPaths = false) :
    reading.take (Text.encode "--") = .ok { reading with onlyPaths := true } :=
  take_of_shape h _

theorem shape_of_isPlain {word : Bytes} (h : IsPlain word) : Shape.of word = .plain := by
  rcases h with rfl | hhead
  · rfl
  · cases word with
    | nil => rfl
    | cons first rest => exact if_pos fun h => hhead (congrArg some h)

theorem take_awaited {word : Bytes} (h : reading.onlyPaths = false)
    (hopened : reading.opened = .levelAwaited) (hword : IsPlain word) :
    reading.take word = .ok { reading with opened := .level word } := by
  rw [take_of_shape h, shape_of_isPlain hword]
  exact if_pos hopened

theorem take_isPlain {word : Bytes} (h : reading.onlyPaths = false)
    (hopened : reading.opened ≠ .levelAwaited) (hword : IsPlain word) :
    reading.take word = reading.takePath word := by
  rw [take_of_shape h, shape_of_isPlain hword]
  exact if_neg hopened

theorem takeLong_level (value : Option Bytes) :
    reading.takeLong (Text.encode Flag.level.name) value = reading.takeLevelFlag value :=
  if_pos rfl

/-- The letter of a level has the rest of the word as its value. -/
theorem takeShort_level (rest : Bytes) :
    reading.takeShort (0x4C :: rest) = reading.takeLevelFlag (attached rest) := by
  have hsplit : Text.splitText (0x4C :: rest) =
      ('L' :: (Text.splitText rest).1, (Text.splitText rest).2) := rfl
  rw [takeShort, hsplit]
  dsimp only
  rw [if_pos rfl, Text.encode_splitText]

theorem attached_of_ne {first : UInt8} (h : first ≠ equalsSign) (more : Bytes) :
    attached (first :: more) = some (first :: more) :=
  congrArg some (if_neg h)

/-- **WORDS OF A LEVEL** are taken as one, however they are spelled. -/
theorem take_levelWord {word : Bytes} {value : Option Bytes} (h : reading.onlyPaths = false)
    (hword : LevelWord word value) : reading.take word = reading.takeLevelFlag value := by
  rw [take_of_shape h]
  cases hword with
  | short => exact takeShort_level []
  | long => exact takeLong_level none
  | attached hfirst =>
      exact (takeShort_level _).trans (congrArg reading.takeLevelFlag (attached_of_ne hfirst _))
  | shortEquals => exact takeShort_level (equalsSign :: _)
  | longEquals => exact takeLong_level (some _)

theorem takeAnswer_ne_ok (flag : Flag) (answer : Stop) (value : Option Bytes) :
    reading.takeAnswer flag answer value ≠ .ok next := by
  cases value with
  | none =>
      intro h
      obtain ⟨_, _, h⟩ := bind_eq_ok_iff.mp h
      cases h
  | some value => exact fun h => nomatch h

/-- Of the long options only the level's is ever taken. -/
theorem name_of_takeLong {name : Bytes} {value : Option Bytes}
    (h : reading.takeLong name value = .ok next) : name = Text.encode Flag.level.name := by
  rw [takeLong] at h
  by_cases hname : name = Text.encode Flag.level.name
  · exact hname
  · rw [if_neg hname] at h
    split at h
    · exact absurd h (takeAnswer_ne_ok _ _ _)
    split at h
    · exact absurd h (takeAnswer_ne_ok _ _ _)
    · cases h

/-- Of the short ones only the level's letter, too. -/
theorem letters_of_takeShort {letters : Bytes} (h : reading.takeShort letters = .ok next) :
    ∃ rest, letters = 0x4C :: rest := by
  rw [takeShort] at h
  have hletters := Text.encode_splitText letters
  split at h
  · cases h
  · next letter text stray hsplit =>
      rw [hsplit] at hletters
      split at h
      · next hletter =>
          rw [hletter, Text.encode, String.toList_ofList, List.flatMap_cons] at hletters
          exact ⟨_, hletters.symm⟩
      split at h
      · exact absurd h (takeAnswer_ne_ok _ _ _)
      split at h
      · exact absurd h (takeAnswer_ne_ok _ _ _)
      · cases h

end Reading

theorem levelWord_short (rest : Bytes) :
    ∃ value, LevelWord (Text.encode "-L" ++ rest) value := by
  cases rest with
  | nil => exact ⟨none, .short⟩
  | cons first more =>
      by_cases hfirst : first = equalsSign
      · subst hfirst
        exact ⟨some more, .shortEquals⟩
      · exact ⟨some (first :: more), .attached hfirst⟩

/-- A text whose name is the level's is the name alone, or has a value after
    an equals sign. -/
theorem levelWord_long {text : Bytes}
    (h : text.takeWhile (· ≠ equalsSign) = Text.encode Flag.level.name) :
    ∃ value, LevelWord (hyphen :: hyphen :: text) value := by
  have htext := List.takeWhile_append_dropWhile (p := (· ≠ equalsSign)) (l := text)
  rw [h] at htext
  cases hdrop : text.dropWhile (· ≠ equalsSign) with
  | nil =>
      rw [hdrop, List.append_nil] at htext
      subst htext
      exact ⟨none, .long⟩
  | cons first value =>
      have hfirst : first = equalsSign := by
        have hhead := List.head?_dropWhile_not (· ≠ equalsSign) text
        rw [hdrop] at hhead
        simpa using hhead
      rw [hdrop, hfirst] at htext
      subst htext
      exact ⟨some value, .longEquals⟩

theorem exists_of_not_isPlain {word : Bytes} (h : ¬ IsPlain word) :
    ∃ rest, word = hyphen :: rest ∧ rest ≠ [] := by
  cases word with
  | nil => exact absurd (.inr fun h => nomatch h) h
  | cons first rest =>
      by_cases hfirst : first = hyphen
      · subst hfirst
        exact ⟨rest, rfl, fun hrest => h (.inl (congrArg (hyphen :: ·) hrest))⟩
      · exact absurd (.inr fun hhead => hfirst (Option.some.inj hhead)) h

/-- **ONE WORD**: a word separates, or gives a level, or is plain, or is
    refused. -/
theorem word_cases (word : Bytes) :
    word = Text.encode "--" ∨ (∃ value, LevelWord word value) ∨ IsPlain word ∨ IsRefused word := by
  by_cases hplain : IsPlain word
  · exact .inr (.inr (.inl hplain))
  obtain ⟨rest, rfl, hrest⟩ : ∃ rest, word = hyphen :: rest ∧ rest ≠ [] :=
    exists_of_not_isPlain hplain
  obtain ⟨second, more, rfl⟩ := List.exists_cons_of_ne_nil hrest
  by_cases hsecond : second = hyphen
  · subst hsecond
    by_cases hmore : more = []
    · subst hmore
      exact .inl rfl
    have hshape : Shape.of (hyphen :: hyphen :: more) = Shape.ofLong more := if_neg hmore
    by_cases hname : more.takeWhile (· ≠ equalsSign) = Text.encode Flag.level.name
    · exact .inr (.inl (levelWord_long hname))
    · refine .inr (.inr (.inr fun reading next h htake => ?_))
      rw [Reading.take_of_shape h, hshape, Shape.ofLong] at htake
      exact hname (Reading.name_of_takeLong htake)
  · have hshape : Shape.of (hyphen :: second :: more) = .short (second :: more) := if_pos hsecond
    by_cases hletter : second = 0x4C
    · subst hletter
      exact .inr (.inl (levelWord_short more))
    · refine .inr (.inr (.inr fun reading next h htake => ?_))
      rw [Reading.take_of_shape h, hshape] at htake
      obtain ⟨_, heq⟩ := Reading.letters_of_takeShort htake
      exact hletter (List.cons.inj heq).1

/-! ## What is found -/

theorem not_isLevel_hyphen {n : Nat} : ¬ IsLevel [hyphen] n := by
  rintro ⟨text, htext, hnumeral, -⟩
  have hread : Text.decode? [hyphen] = some "-" := rfl
  rw [htext, Text.decode?_encode] at hread
  obtain rfl := Option.some.inj hread
  have hdigits := (numeral_minus_iff.mp hnumeral).1
  exact hdigits.ne_nil rfl

namespace Reading

variable {reading settled next : Reading} {level : Option Nat} {path : Option Path}

/-- **A LEVEL** is taken if there was none and the value is the text of
    one. -/
theorem takeLevel_eq_ok_iff {value : Bytes} :
    reading.takeLevel value = .ok next ↔ reading.level = none ∧
      ∃ n, IsLevel value n ∧ next = { reading with level := some n, opened := .nothing } := by
  rw [takeLevel]
  cases hlevel : reading.level with
  | some n => exact iff_of_false (fun h => nomatch h) fun ⟨h, _⟩ => nomatch h
  | none =>
      rw [if_neg (by exact Bool.false_ne_true)]
      constructor
      · intro h
        refine ⟨rfl, ?_⟩
        cases htext : Text.decode? value with
        | none =>
            rw [htext] at h
            cases h
        | some text =>
            rw [htext] at h
            dsimp only at h
            cases hread : readLevel text.toList with
            | error why =>
                rw [hread] at h
                cases h
            | ok n =>
                rw [hread] at h
                have hnumeral := readLevel_eq_ok_iff.mp hread
                exact ⟨n, ⟨text, (Text.encode_of_decode? htext).symm, hnumeral⟩,
                  (Except.ok.inj h).symm⟩
      · rintro ⟨-, n, ⟨text, rfl, hnumeral⟩, rfl⟩
        rw [Text.decode?_encode]
        dsimp only
        rw [readLevel_eq_ok_iff.mpr hnumeral]

theorem takePath_eq_ok_iff {word : Bytes} :
    reading.takePath word = .ok next ↔ reading.showsPath = false ∧
      ∃ settled, reading.settle = .ok settled ∧ next = { settled with opened := .path word } := by
  rw [takePath]
  cases hshows : reading.showsPath with
  | true => exact iff_of_false (fun h => nomatch h) fun ⟨h, _⟩ => nomatch h
  | false =>
      rw [if_neg Bool.false_ne_true, bind_eq_ok_iff]
      simp [eq_comm]

/-! ### Settling -/

/-- What is settled has nothing open, and paths are given as before. -/
structure Settles (reading settled : Reading) : Prop where
  settle_eq : reading.settle = .ok settled
  opened_eq : settled.opened = .nothing
  onlyPaths_eq : settled.onlyPaths = reading.onlyPaths
  showsPath_eq : settled.showsPath = reading.showsPath

theorem settles_of_settle (h : reading.settle = .ok settled) : reading.Settles settled := by
  obtain ⟨level, path, opened, onlyPaths⟩ := reading
  rw [settle] at h
  cases opened with
  | nothing =>
      obtain rfl := Except.ok.inj h
      exact ⟨rfl, rfl, rfl, rfl⟩
  | levelAwaited => cases h
  | level value =>
      obtain ⟨hlevel, n, hn, rfl⟩ := takeLevel_eq_ok_iff.mp h
      exact ⟨h, rfl, rfl, rfl⟩
  | path value =>
      dsimp only at h
      split at h
      · cases h
      · next hne =>
          obtain rfl := Except.ok.inj h
          exact ⟨if_neg hne, rfl, rfl, rfl⟩

theorem settle_of_nothing (h : reading.opened = .nothing) : reading.settle = .ok reading := by
  rw [settle, h]

/-- Whether only paths follow makes no difference to what is open. -/
theorem settle_onlyPaths (h : reading.settle = .ok settled) (onlyPaths : Bool) :
    { reading with onlyPaths }.settle = .ok { settled with onlyPaths } := by
  obtain ⟨level, path, opened, before⟩ := reading
  rw [settle] at h
  cases opened with
  | nothing =>
      obtain rfl := Except.ok.inj h
      rfl
  | levelAwaited => cases h
  | level value =>
      obtain ⟨hlevel, n, hn, rfl⟩ := takeLevel_eq_ok_iff.mp h
      exact takeLevel_eq_ok_iff.mpr ⟨hlevel, n, hn, rfl⟩
  | path value =>
      dsimp only at h
      split at h
      · cases h
      · next hne =>
          obtain rfl := Except.ok.inj h
          exact if_neg hne

namespace Settles

theorem onlyPaths (h : reading.Settles settled) (onlyPaths : Bool) :
    { reading with onlyPaths }.Settles { settled with onlyPaths } :=
  settles_of_settle (settle_onlyPaths h.settle_eq onlyPaths)

theorem opened_ne (h : reading.Settles settled) : reading.opened ≠ .levelAwaited := by
  intro hopened
  have hsettle := h.settle_eq
  rw [settle, hopened] at hsettle
  cases hsettle

theorem takePath_eq (h : reading.Settles settled) (word : Bytes) :
    reading.takePath word = settled.takePath word := by
  rw [takePath, takePath, h.showsPath_eq, h.settle_eq, settle_of_nothing h.opened_eq]

theorem takeLevelFlag_eq (h : reading.Settles settled) (value : Option Bytes) :
    reading.takeLevelFlag value = settled.takeLevelFlag value := by
  cases value with
  | none => rw [takeLevelFlag, takeLevelFlag, h.settle_eq, settle_of_nothing h.opened_eq]
  | some value => rw [takeLevelFlag, takeLevelFlag, h.settle_eq, settle_of_nothing h.opened_eq]

end Settles

theorem exists_settles_of_takePath {word : Bytes} (h : reading.takePath word = .ok next) :
    ∃ settled, reading.Settles settled := by
  obtain ⟨-, settled, hsettle, -⟩ := takePath_eq_ok_iff.mp h
  exact ⟨settled, settles_of_settle hsettle⟩

theorem exists_settles_of_takeLevelFlag {value : Option Bytes}
    (h : reading.takeLevelFlag value = .ok next) : ∃ settled, reading.Settles settled := by
  cases value with
  | none =>
      obtain ⟨settled, hsettle, -⟩ := bind_eq_ok_iff.mp h
      exact ⟨settled, settles_of_settle hsettle⟩
  | some value =>
      obtain ⟨settled, hsettle, -⟩ := bind_eq_ok_iff.mp h
      exact ⟨settled, settles_of_settle hsettle⟩

/-- That arguments are read, and what is found with them. -/
def Finds (reading : Reading) (args : List Bytes) (level : Option Nat) (path : Option Path) : Prop :=
  ∃ final, reading.takeAll args = .ok final ∧ final.level = level ∧ final.path = path

theorem finds_nil : reading.Finds [] level path ↔
    ∃ settled, reading.settle = .ok settled ∧ settled.level = level ∧ settled.path = path :=
  Iff.rfl

theorem finds_cons {word : Bytes} {args : List Bytes} :
    reading.Finds (word :: args) level path ↔
      ∃ next, reading.take word = .ok next ∧ next.Finds args level path := by
  rw [Finds, takeAll]
  cases reading.take word with
  | error stop =>
      exact iff_of_false (fun ⟨_, h, _⟩ => nomatch h) fun ⟨_, h, _⟩ => nomatch h
  | ok next =>
      constructor
      · intro h
        exact ⟨next, rfl, h⟩
      · rintro ⟨_, heq, h⟩
        rw [Except.ok.inj heq]
        exact h

theorem finds_of_take {word : Bytes} {args : List Bytes} (h : reading.take word = .ok next) :
    reading.Finds (word :: args) level path ↔ next.Finds args level path := by
  rw [finds_cons, h]
  simp only [Except.ok.injEq, exists_eq_left']

theorem not_finds_of_isRefused {word : Bytes} {args : List Bytes} (h : IsRefused word)
    (honly : reading.onlyPaths = false) : ¬ reading.Finds (word :: args) level path := by
  intro hfinds
  obtain ⟨next, htake, -⟩ := finds_cons.mp hfinds
  exact h reading next honly htake

/-- Unless a level waits for its value, nothing is found before what is open
    is settled. -/
theorem exists_settles_of_finds {args : List Bytes} :
    ∀ {reading : Reading}, reading.opened ≠ .levelAwaited ∨ reading.onlyPaths = true →
      reading.Finds args level path → ∃ settled, reading.Settles settled := by
  induction args with
  | nil =>
      intro reading _ h
      obtain ⟨settled, hsettle, -⟩ := finds_nil.mp h
      exact ⟨settled, settles_of_settle hsettle⟩
  | cons word args ih =>
      intro reading hopened h
      obtain ⟨next, htake, hnext⟩ := finds_cons.mp h
      cases honly : reading.onlyPaths with
      | true =>
          rw [take_of_onlyPaths honly] at htake
          exact exists_settles_of_takePath htake
      | false =>
          have hopened : reading.opened ≠ .levelAwaited :=
            hopened.resolve_right (by rw [honly]; exact Bool.false_ne_true)
          rcases word_cases word with rfl | ⟨value, hword⟩ | hplain | hrefused
          · rw [take_separator honly] at htake
            obtain rfl := Except.ok.inj htake
            obtain ⟨settled, hsettles⟩ := ih (.inr rfl) hnext
            exact ⟨_, hsettles.onlyPaths reading.onlyPaths⟩
          · rw [take_levelWord honly hword] at htake
            exact exists_settles_of_takeLevelFlag htake
          · rw [take_isPlain honly hopened hplain] at htake
            exact exists_settles_of_takePath htake
          · exact absurd htake (hrefused reading next honly)

/-- **SETTLING EARLY**: what is open can be settled at once, with the same
    found. -/
theorem Settles.finds_iff {args : List Bytes} :
    ∀ {reading settled : Reading}, reading.Settles settled →
      (reading.Finds args level path ↔ settled.Finds args level path) := by
  induction args with
  | nil =>
      intro reading settled h
      rw [finds_nil, finds_nil, h.settle_eq, settle_of_nothing h.opened_eq]
  | cons word args ih =>
      intro reading settled h
      cases honly : reading.onlyPaths with
      | true =>
          rw [finds_cons, finds_cons, take_of_onlyPaths honly,
            take_of_onlyPaths (h.onlyPaths_eq.trans honly), h.takePath_eq]
      | false =>
          have honly' := h.onlyPaths_eq.trans honly
          have hopened : settled.opened ≠ .levelAwaited := by
            rw [h.opened_eq]
            exact fun h => nomatch h
          rcases word_cases word with rfl | ⟨value, hword⟩ | hplain | hrefused
          · rw [finds_of_take (take_separator honly), finds_of_take (take_separator honly')]
            exact ih (h.onlyPaths true)
          · rw [finds_cons, finds_cons, take_levelWord honly hword, take_levelWord honly' hword,
              h.takeLevelFlag_eq]
          · rw [finds_cons, finds_cons, take_isPlain honly h.opened_ne hplain,
              take_isPlain honly' hopened hplain, h.takePath_eq]
          · exact iff_of_false (not_finds_of_isRefused hrefused honly)
              (not_finds_of_isRefused hrefused honly')

theorem finds_iff_of_settle {args : List Bytes}
    (hopened : reading.opened ≠ .levelAwaited ∨ reading.onlyPaths = true) :
    reading.Finds args level path ↔
      ∃ settled, reading.settle = .ok settled ∧ settled.Finds args level path := by
  constructor
  · intro h
    obtain ⟨settled, hsettles⟩ := exists_settles_of_finds hopened h
    exact ⟨settled, hsettles.settle_eq, hsettles.finds_iff.mp h⟩
  · rintro ⟨settled, hsettle, h⟩
    exact (settles_of_settle hsettle).finds_iff.mpr h

/-! ### Items one by one -/

section Known

variable {known : Option Nat} {root : Option Path} {onlyPaths : Bool} {args : List Bytes}

/-- A level that is open is the next one, and must be the text of one. -/
theorem finds_level {value : Bytes} :
    (Reading.mk known root (.level value) onlyPaths).Finds args level path ↔
      known = none ∧ ∃ n, IsLevel value n ∧
        (Reading.mk (some n) root .nothing onlyPaths).Finds args level path := by
  rw [finds_iff_of_settle (.inl (by simp))]
  constructor
  · rintro ⟨settled, hsettle, h⟩
    obtain ⟨hknown, n, hn, rfl⟩ := takeLevel_eq_ok_iff.mp hsettle
    exact ⟨hknown, n, hn, h⟩
  · rintro ⟨hknown, n, hn, h⟩
    exact ⟨_, takeLevel_eq_ok_iff.mpr ⟨hknown, n, hn, rfl⟩, h⟩

/-- A path that is open is found unless it is empty. -/
theorem finds_path {word : Bytes} :
    (Reading.mk known root (.path word) onlyPaths).Finds args level path ↔
      word ≠ [] ∧ (Reading.mk known (some word) .nothing onlyPaths).Finds args level path := by
  rw [finds_iff_of_settle (.inl (by simp)), settle]
  dsimp only
  by_cases hword : word = []
  · rw [if_pos hword]
    exact iff_of_false (fun ⟨_, h, _⟩ => nomatch h) fun ⟨h, _⟩ => h hword
  · rw [if_neg hword]
    simp only [Except.ok.injEq, exists_eq_left', ne_eq, hword, not_false_eq_true, true_and]

/-- A level that waits takes the next word, if that is plain. -/
theorem finds_levelAwaited :
    (Reading.mk known root .levelAwaited false).Finds args level path ↔
      ∃ value rest, args = value :: rest ∧ IsPlain value ∧
        (Reading.mk known root (.level value) false).Finds rest level path := by
  have hnot : ∀ {onlyPaths : Bool} {settled : Reading},
      ¬ (Reading.mk known root .levelAwaited onlyPaths).Settles settled := fun h => h.opened_ne rfl
  constructor
  · intro h
    cases args with
    | nil =>
        obtain ⟨_, hsettle, -⟩ := finds_nil.mp h
        cases hsettle
    | cons word rest =>
        rcases word_cases word with rfl | ⟨value, hword⟩ | hplain | hrefused
        · obtain ⟨_, hsettles⟩ := exists_settles_of_finds (.inr rfl)
            ((finds_of_take (take_separator rfl)).mp h)
          exact absurd hsettles hnot
        · obtain ⟨next, htake, -⟩ := finds_cons.mp h
          rw [take_levelWord rfl hword] at htake
          obtain ⟨_, hsettles⟩ := exists_settles_of_takeLevelFlag htake
          exact absurd hsettles hnot
        · exact ⟨word, rest, rfl, hplain, (finds_of_take (take_awaited rfl rfl hplain)).mp h⟩
        · exact absurd h (not_finds_of_isRefused hrefused rfl)
  · rintro ⟨value, rest, rfl, hplain, h⟩
    exact (finds_of_take (take_awaited rfl rfl hplain)).mpr h

/-- A word that is taken as a path is the next one. -/
theorem finds_of_takePath {word : Bytes}
    (htake : (Reading.mk known root .nothing onlyPaths).take word =
      (Reading.mk known root .nothing onlyPaths).takePath word) :
    (Reading.mk known root .nothing onlyPaths).Finds (word :: args) level path ↔
      root = none ∧ word ≠ [] ∧
        (Reading.mk known (some word) .nothing onlyPaths).Finds args level path := by
  rw [finds_cons, htake]
  cases root with
  | some root =>
      refine iff_of_false ?_ fun ⟨h, _⟩ => nomatch h
      rintro ⟨next, h, -⟩
      cases h
  | none =>
      have hnext : (Reading.mk known none .nothing onlyPaths).takePath word =
          .ok ⟨known, none, .path word, onlyPaths⟩ := rfl
      rw [hnext]
      simp only [Except.ok.injEq, exists_eq_left', finds_path, true_and]

theorem finds_of_levelWord_none {word : Bytes} (h : LevelWord word none) :
    (Reading.mk known root .nothing false).Finds (word :: args) level path ↔
      (Reading.mk known root .levelAwaited false).Finds args level path :=
  finds_of_take (take_levelWord rfl h)

theorem finds_of_levelWord_some {word value : Bytes} (h : LevelWord word (some value)) :
    (Reading.mk known root .nothing false).Finds (word :: args) level path ↔
      known = none ∧ ∃ n, IsLevel value n ∧
        (Reading.mk (some n) root .nothing false).Finds args level path := by
  rw [finds_cons, take_levelWord rfl h, ← finds_level, finds_iff_of_settle (.inl (by simp))]
  rfl

end Known

end Reading

/-! ## Sentences -/

/-- That what is known and what items give come to a level and a path, no
    more than one of each. -/
structure Adds (known : Option Nat) (root : Option Path) (items : List Item) (level : Option Nat)
    (path : Option Path) : Prop where
  levels : known.toList ++ items.filterMap Item.level? = level.toList
  paths : root.toList ++ items.filterMap Item.path? = path.toList

section Adds

variable {known level : Option Nat} {root path : Option Path} {items : List Item}

theorem toList_eq_iff {α : Type} {a b : Option α} : a.toList ++ [] = b.toList ↔ a = b := by
  cases a <;> cases b <;> simp

/-- No more than one is known. -/
theorem toList_append_cons_iff {α : Type} {a b : Option α} {x : α} {rest : List α} :
    a.toList ++ x :: rest = b.toList ↔ a = none ∧ (some x).toList ++ rest = b.toList := by
  cases a <;> cases b <;> simp

theorem adds_nil : Adds known root [] level path ↔ known = level ∧ root = path :=
  ⟨fun h => ⟨toList_eq_iff.mp h.levels, toList_eq_iff.mp h.paths⟩,
    fun h => ⟨toList_eq_iff.mpr h.1, toList_eq_iff.mpr h.2⟩⟩

theorem adds_level {n : Nat} : Adds known root (.level n :: items) level path ↔
    known = none ∧ Adds (some n) root items level path := by
  constructor
  · rintro ⟨hlevels, hpaths⟩
    obtain ⟨hknown, hlevels⟩ := toList_append_cons_iff.mp hlevels
    exact ⟨hknown, hlevels, hpaths⟩
  · rintro ⟨hknown, hlevels, hpaths⟩
    exact ⟨toList_append_cons_iff.mpr ⟨hknown, hlevels⟩, hpaths⟩

theorem adds_path {word : Path} : Adds known root (.path word :: items) level path ↔
    root = none ∧ Adds known (some word) items level path := by
  constructor
  · rintro ⟨hlevels, hpaths⟩
    obtain ⟨hroot, hpaths⟩ := toList_append_cons_iff.mp hpaths
    exact ⟨hroot, hlevels, hpaths⟩
  · rintro ⟨hroot, hlevels, hpaths⟩
    exact ⟨hlevels, toList_append_cons_iff.mpr ⟨hroot, hpaths⟩⟩

end Adds

namespace Reading

variable {level : Option Nat} {path : Option Path}

theorem finds_settled_nil {known : Option Nat} {root : Option Path} {onlyPaths : Bool} :
    (Reading.mk known root .nothing onlyPaths).Finds [] level path ↔
      known = level ∧ root = path := by
  rw [finds_nil, settle_of_nothing rfl]
  simp only [Except.ok.injEq, exists_eq_left']

/-- **AFTER A SEPARATOR** all words are paths. -/
theorem finds_onlyPaths {paths : List Bytes} :
    ∀ {known : Option Nat} {root : Option Path},
      (Reading.mk known root .nothing true).Finds paths level path ↔
        (∀ word ∈ paths, word ≠ []) ∧ Adds known root (paths.map .path) level path := by
  induction paths with
  | nil =>
      intro known root
      rw [finds_settled_nil, List.map_nil, adds_nil]
      exact (and_iff_right (List.forall_mem_nil _)).symm
  | cons word paths ih =>
      intro known root
      rw [finds_of_takePath rfl, ih, List.map_cons, adds_path, List.forall_mem_cons]
      constructor
      · rintro ⟨hroot, hword, hpaths, h⟩
        exact ⟨⟨hword, hpaths⟩, hroot, h⟩
      · rintro ⟨⟨hword, hpaths⟩, hroot, h⟩
        exact ⟨hroot, hword, hpaths, h⟩

theorem finds_of_sentence {items : List Item} {args : List Bytes} (hsentence : Sentence items args) :
    ∀ {known : Option Nat} {root : Option Path}, Adds known root items level path →
      (Reading.mk known root .nothing false).Finds args level path := by
  induction hsentence with
  | nil =>
      intro known root h
      exact finds_settled_nil.mpr (adds_nil.mp h)
  | item hwords _ ih =>
      intro known root h
      cases hwords with
      | apart hword hvalue hlevel =>
          obtain ⟨rfl, hadds⟩ := adds_level.mp h
          exact (finds_of_levelWord_none hword).mpr (finds_levelAwaited.mpr
            ⟨_, _, rfl, .inr hvalue, finds_level.mpr ⟨rfl, _, hlevel, ih hadds⟩⟩)
      | together hword hlevel =>
          obtain ⟨rfl, hadds⟩ := adds_level.mp h
          exact (finds_of_levelWord_some hword).mpr ⟨rfl, _, hlevel, ih hadds⟩
      | path hne hplain =>
          obtain ⟨rfl, hadds⟩ := adds_path.mp h
          exact (finds_of_takePath (take_isPlain rfl (by simp) hplain)).mpr ⟨rfl, hne, ih hadds⟩
  | separator hpaths =>
      intro known root h
      exact (finds_of_take (take_separator rfl)).mpr (finds_onlyPaths.mpr ⟨hpaths, h⟩)

theorem head?_ne_of_isLevel {value : Bytes} {n : Nat} (hplain : IsPlain value)
    (h : IsLevel value n) : value.head? ≠ some hyphen := by
  rcases hplain with rfl | hhead
  · exact absurd h not_isLevel_hyphen
  · exact hhead

theorem exists_sentence_of_finds {args : List Bytes} {known : Option Nat} {root : Option Path}
    (h : (Reading.mk known root .nothing false).Finds args level path) :
    ∃ items, Sentence items args ∧ Adds known root items level path := by
  -- on the number of words, since an item takes one or two
  induction hlength : args.length using Nat.strong_induction_on generalizing args known root with
  | h length ih =>
  cases args with
  | nil => exact ⟨[], .nil, adds_nil.mpr (finds_settled_nil.mp h)⟩
  | cons word args =>
      rw [List.length_cons] at hlength
      rcases word_cases word with rfl | ⟨_ | value, hword⟩ | hplain | hrefused
      · obtain ⟨hpaths, hadds⟩ := finds_onlyPaths.mp ((finds_of_take (take_separator rfl)).mp h)
        exact ⟨_, .separator hpaths, hadds⟩
      · obtain ⟨value, rest, rfl, hplain, h⟩ :=
          finds_levelAwaited.mp ((finds_of_levelWord_none hword).mp h)
        obtain ⟨rfl, n, hlevel, h⟩ := finds_level.mp h
        rw [List.length_cons] at hlength
        obtain ⟨items, hsentence, hadds⟩ := ih rest.length (by omega) h rfl
        exact ⟨.level n :: items,
          .item (.apart hword (head?_ne_of_isLevel hplain hlevel) hlevel) hsentence,
          adds_level.mpr ⟨rfl, hadds⟩⟩
      · obtain ⟨rfl, n, hlevel, h⟩ := (finds_of_levelWord_some hword).mp h
        obtain ⟨items, hsentence, hadds⟩ := ih args.length (by omega) h rfl
        exact ⟨.level n :: items, .item (.together hword hlevel) hsentence,
          adds_level.mpr ⟨rfl, hadds⟩⟩
      · obtain ⟨rfl, hne, h⟩ :=
          (finds_of_takePath (take_isPlain rfl (by simp) hplain)).mp h
        obtain ⟨items, hsentence, hadds⟩ := ih args.length (by omega) h rfl
        exact ⟨.path word :: items, .item (.path hne hplain) hsentence,
          adds_path.mpr ⟨rfl, hadds⟩⟩
      · exact absurd h (not_finds_of_isRefused hrefused rfl)

/-- **ALL WORDS**: what is found is what the items of a sentence add. -/
theorem finds_iff {args : List Bytes} {known : Option Nat} {root : Option Path} :
    (Reading.mk known root .nothing false).Finds args level path ↔
      ∃ items, Sentence items args ∧ Adds known root items level path :=
  ⟨exists_sentence_of_finds, fun ⟨_, hsentence, hadds⟩ => finds_of_sentence hsentence hadds⟩

end Reading

theorem read_eq_ok_iff_finds {args : List Bytes} {request : Request} :
    read args = .ok request ↔ ∃ level path, Reading.start.Finds args level path ∧
      request = ⟨path.getD Path.selfPiece, level.getD defaultMaxLevel⟩ := by
  rw [read]
  cases htake : Reading.start.takeAll args with
  | error stop =>
      refine iff_of_false (fun h => nomatch h) ?_
      rintro ⟨_, _, ⟨_, h, -⟩, -⟩
      rw [htake] at h
      cases h
  | ok final =>
      constructor
      · intro h
        exact ⟨_, _, ⟨final, htake, rfl, rfl⟩, (Except.ok.inj h).symm⟩
      · rintro ⟨_, _, ⟨_, h, rfl, rfl⟩, rfl⟩
        rw [htake] at h
        rw [← Except.ok.inj h]
        rfl

theorem eq_toList_iff {α : Type} {list : List α} {a : Option α} :
    list = a.toList ↔ list.length ≤ 1 ∧ list.head? = a := by
  match list with
  | [] => cases a <;> simp
  | [x] => cases a <;> simp
  | x :: y :: rest => cases a <;> simp

/-- **THE GRAMMAR**: reading succeeds exactly on items in any order, with no
    more than one level and one path among them, and asks for that path and
    level, or for the current directory and three levels. -/
theorem read_eq_ok_iff (args : List Bytes) (request : Request) :
    read args = .ok request ↔ ∃ items, Sentence items args ∧
      (items.filterMap Item.level?).length ≤ 1 ∧ (items.filterMap Item.path?).length ≤ 1 ∧
      request.maxLevel = (items.filterMap Item.level?).head?.getD 3 ∧
      request.path = (items.filterMap Item.path?).head?.getD (Text.encode ".") := by
  rw [read_eq_ok_iff_finds]
  constructor
  · rintro ⟨level, path, hfinds, rfl⟩
    obtain ⟨items, hsentence, hlevels, hpaths⟩ := Reading.finds_iff.mp hfinds
    obtain ⟨hlevel, rfl⟩ := eq_toList_iff.mp hlevels
    obtain ⟨hpath, rfl⟩ := eq_toList_iff.mp hpaths
    exact ⟨items, hsentence, hlevel, hpath, rfl, rfl⟩
  · rintro ⟨items, hsentence, hlevel, hpath, hmaxLevel, hroot⟩
    have hadds : Adds none none items _ _ :=
      ⟨eq_toList_iff.mpr ⟨hlevel, rfl⟩, eq_toList_iff.mpr ⟨hpath, rfl⟩⟩
    refine ⟨_, _, Reading.finds_iff.mpr ⟨items, hsentence, hadds⟩, ?_⟩
    obtain ⟨path, maxLevel⟩ := request
    exact congrArg₂ Request.mk hroot hmaxLevel

/-- A second separator is a path, and a signed zero is a level if it is
    attached. -/
example :
    read (["-L-0", "--", "--"].map Text.encode) = .ok ⟨Text.encode "--", 0⟩ := by
  decide

end TreeSketch.CommandLine
