/-! # Similar names

    The similarity of two names is the mean of three shares: the common
    characters among those of the first name, among those of the second,
    and those in order among the common ones.  Characters are common if
    they are equal and not too far apart, each taken once, from the left.

    Each step of the sum is rounded to 53 binary digits, and so is the
    threshold; this decides which of two names is the better one where the
    exact means are equal, and which means reach the threshold exactly. -/

namespace TreeSketch

namespace CommandLine

/-- A fraction. -/
structure Share where
  part : Nat
  whole : Nat
  deriving DecidableEq, Repr

namespace Share

/-- Whether one fraction is less than another. -/
def isBelow (a b : Share) : Bool :=
  a.part * b.whole < b.part * a.whole

/-- The nearest fraction with 53 binary digits, for a positive fraction
    below 2 ^ 53; of two that are equally near, the one with an even last
    digit. -/
def rounded (a : Share) : Share :=
  let guess := 52 + a.whole.log2 - a.part.log2
  let shift := if (a.part <<< guess) / a.whole < 1 <<< 52 then guess + 1 else guess
  let digits := (a.part <<< shift) / a.whole
  let rest := (a.part <<< shift) % a.whole
  let isUp := a.whole < 2 * rest || (2 * rest = a.whole && digits % 2 = 1)
  ⟨if isUp then digits + 1 else digits, 1 <<< shift⟩

/-- The sum of two fractions, rounded. -/
def plus (a b : Share) : Share :=
  rounded ⟨a.part * b.whole + b.part * a.whole, a.whole * b.whole⟩

/-- A third of a fraction, rounded. -/
def third (a : Share) : Share :=
  rounded ⟨a.part, 3 * a.whole⟩

end Share

/-- A character of a name, and whether a character of the other name has
    been matched with it. -/
abbrev Marked :=
  Char × Bool

/-- Marks the first free `c` at an index from `low` to `high`, where the
    characters given start at `index`. -/
def mark (c : Char) (low high : Nat) : Nat → List Marked → Option (List Marked)
  | _, [] => none
  | index, (d, taken) :: rest =>
    if low ≤ index && index ≤ high && !taken && c = d then some ((d, true) :: rest)
    else (mark c low high (index + 1) rest).map ((d, taken) :: ·)

/-- Matches characters, the first at `index`, with the marked ones within
    `reach`: those that found one, and the marks at the end. -/
def matchFrom (reach : Nat) : Nat → List Char → List Marked → List Char × List Marked
  | _, [], marked => ([], marked)
  | index, c :: rest, marked =>
    match mark c (index - reach) (index + reach) 0 marked with
    | none => matchFrom reach (index + 1) rest marked
    | some marked =>
      let (common, marked) := matchFrom reach (index + 1) rest marked
      (c :: common, marked)

/-- The similarity of two names. -/
def similarity (a b : List Char) : Share :=
  let reach := max a.length b.length / 2 - 1
  let (common, marked) := matchFrom reach 0 a (b.map fun c => (c, false))
  let matched := (marked.filter Prod.snd).map Prod.fst
  let m := common.length
  let swapped := ((common.zip matched).filter fun (c, d) => c ≠ d).length / 2
  if m = 0 then ⟨0, 1⟩
  else
    (((Share.rounded ⟨m, a.length⟩).plus (Share.rounded ⟨m, b.length⟩)).plus
      (Share.rounded ⟨m - swapped, m⟩)).third

/-- The similarity above which a name is suggested. -/
def suggestionThreshold : Share :=
  Share.rounded ⟨7, 10⟩

/-- The candidate most similar to a name, the last of equal ones, if it is
    similar enough. -/
def suggest? {α : Type} (name : List Char) (candidates : List (List Char × α)) : Option α :=
  (candidates.foldl better none).map Prod.snd
where
  /-- The better of the best candidate so far and the next one. -/
  better (best : Option (Share × α)) (next : List Char × α) : Option (Share × α) :=
    let share := similarity name next.1
    if !suggestionThreshold.isBelow share then best
    else match best with
      | none => some (share, next.2)
      | some (bestShare, value) =>
        if share.isBelow bestShare then some (bestShare, value) else some (share, next.2)

end CommandLine

end TreeSketch
