import Mathlib
import TreeSketch.CommandLine.Level

/-! # Levels as they are written

    A numeral is a sign or none and then decimal digits, and what it stands
    for has no bounds (`Numeral`).  Reading goes digit by digit and gives up
    when the 64-bit range is left; that a number only grows with its digits
    makes it the same to ask at the end (`readInteger_eq_ok_iff`).  So
    exactly the numerals of numbers in the range of levels are read as
    levels, with leading zeros and either sign of zero among them
    (`readLevel_eq_ok_iff`). -/

namespace TreeSketch.CommandLine

/-- That there are digits and nothing else. -/
structure IsDigits (chars : List Char) : Prop where
  ne_nil : chars ≠ []
  isDigit : ∀ c ∈ chars, c.isDigit = true

/-- The number that digits stand for. -/
def decimal (digits : List Char) : Nat :=
  Nat.ofDigitChars 10 digits 0

/-- That characters are a sign or none and then digits, and stand for an
    integer. -/
inductive Numeral : List Char → Int → Prop where
  | plain {digits : List Char} (h : IsDigits digits) : Numeral digits (decimal digits)
  | plus {digits : List Char} (h : IsDigits digits) : Numeral ('+' :: digits) (decimal digits)
  | minus {digits : List Char} (h : IsDigits digits) : Numeral ('-' :: digits) (-decimal digits)

/-! ## Digits -/

theorem digit?_of_isDigit {c : Char} (h : c.isDigit = true) :
    digit? c = some (c.toNat - '0'.toNat) :=
  if_pos h

theorem digit?_of_not_isDigit {c : Char} (h : ¬ c.isDigit = true) : digit? c = none :=
  if_neg h

/-- More digits never make a number smaller. -/
theorem le_ofDigitChars (digits : List Char) :
    ∀ n : Nat, n ≤ Nat.ofDigitChars 10 digits n := by
  induction digits with
  | nil =>
      intro n
      exact Nat.le_refl n
  | cons c rest ih =>
      intro n
      rw [Nat.ofDigitChars_cons]
      exact Nat.le_trans (by omega) (ih _)

/-- **UPWARDS**: digits after those of `n` are read as the number they make
    with it, if that is in the range. -/
theorem readUp_eq_ok_iff {digits : List Char} {z : Int} :
    ∀ {n : Nat}, (n : Int) ≤ greatestInteger →
      (readUp n digits = .ok z ↔ (∀ c ∈ digits, c.isDigit = true) ∧
        z = Nat.ofDigitChars 10 digits n ∧ z ≤ greatestInteger) := by
  induction digits with
  | nil =>
      intro n hn
      rw [readUp, Except.ok.injEq]
      constructor
      · rintro rfl
        exact ⟨List.forall_mem_nil _, rfl, hn⟩
      · rintro ⟨-, hz, -⟩
        exact hz.symm
  | cons c rest ih =>
      intro n hn
      rw [readUp, List.forall_mem_cons]
      by_cases hc : c.isDigit = true
      · rw [digit?_of_isDigit hc, Nat.ofDigitChars_cons]
        generalize c.toNat - '0'.toNat = d
        have hcast : (10 : Int) * n + d = (10 * n + d : Nat) := by omega
        dsimp only
        rw [hcast]
        split
        · next hlarge =>
            -- the number only grows from here on, so it stays out of the range
            have hgrows := le_ofDigitChars rest (10 * n + d)
            constructor
            · intro h
              cases h
            · rintro ⟨-, hz, hle⟩
              omega
        · next hsmall =>
            rw [ih (by omega)]
            simp only [hc, true_and]
      · rw [digit?_of_not_isDigit hc]
        constructor
        · intro h
          cases h
        · rintro ⟨⟨h, -⟩, -⟩
          exact absurd h hc

/-- **DOWNWARDS** the range ends at the other side. -/
theorem readDown_eq_ok_iff {digits : List Char} {z : Int} :
    ∀ {n : Nat}, leastInteger ≤ -(n : Int) →
      (readDown (-n) digits = .ok z ↔ (∀ c ∈ digits, c.isDigit = true) ∧
        z = -Nat.ofDigitChars 10 digits n ∧ leastInteger ≤ z) := by
  induction digits with
  | nil =>
      intro n hn
      rw [readDown, Except.ok.injEq]
      constructor
      · rintro rfl
        exact ⟨List.forall_mem_nil _, rfl, hn⟩
      · rintro ⟨-, hz, -⟩
        exact hz.symm
  | cons c rest ih =>
      intro n hn
      rw [readDown, List.forall_mem_cons]
      by_cases hc : c.isDigit = true
      · rw [digit?_of_isDigit hc, Nat.ofDigitChars_cons]
        generalize c.toNat - '0'.toNat = d
        have hcast : (10 : Int) * -n - d = -(10 * n + d : Nat) := by omega
        dsimp only
        rw [hcast]
        split
        · next hlarge =>
            have hgrows := le_ofDigitChars rest (10 * n + d)
            constructor
            · intro h
              cases h
            · rintro ⟨-, hz, hle⟩
              omega
        · next hsmall =>
            rw [ih (by omega)]
            simp only [hc, true_and]
      · rw [digit?_of_not_isDigit hc]
        constructor
        · intro h
          cases h
        · rintro ⟨⟨h, -⟩, -⟩
          exact absurd h hc

/-! ## Integers -/

theorem IsDigits.head_ne_sign {c : Char} {rest : List Char} (h : IsDigits (c :: rest)) :
    c ≠ '+' ∧ c ≠ '-' := by
  have hc := h.isDigit c List.mem_cons_self
  constructor
  · rintro rfl
    exact absurd hc (by decide)
  · rintro rfl
    exact absurd hc (by decide)

theorem isDigits_cons {c : Char} {rest : List Char} :
    IsDigits (c :: rest) ↔ ∀ d ∈ c :: rest, d.isDigit = true :=
  ⟨IsDigits.isDigit, fun h => ⟨List.cons_ne_nil c rest, h⟩⟩

/-- A text without a sign is a numeral if it is digits. -/
theorem numeral_iff_of_ne_sign {c : Char} {rest : List Char} {z : Int} (hplus : c ≠ '+')
    (hminus : c ≠ '-') :
    Numeral (c :: rest) z ↔ IsDigits (c :: rest) ∧ z = decimal (c :: rest) := by
  constructor
  · intro h
    cases h with
    | plain h => exact ⟨h, rfl⟩
    | plus h => exact absurd rfl hplus
    | minus h => exact absurd rfl hminus
  · rintro ⟨h, rfl⟩
    exact .plain h

theorem numeral_plus_iff {rest : List Char} {z : Int} :
    Numeral ('+' :: rest) z ↔ IsDigits rest ∧ z = decimal rest := by
  constructor
  · intro h
    cases h with
    | plain h => exact absurd rfl h.head_ne_sign.1
    | plus h => exact ⟨h, rfl⟩
  · rintro ⟨h, rfl⟩
    exact .plus h

theorem numeral_minus_iff {rest : List Char} {z : Int} :
    Numeral ('-' :: rest) z ↔ IsDigits rest ∧ z = -decimal rest := by
  constructor
  · intro h
    cases h with
    | plain h => exact absurd rfl h.head_ne_sign.2
    | minus h => exact ⟨h, rfl⟩
  · rintro ⟨h, rfl⟩
    exact .minus h

/-- That an integer is in the range that is read. -/
def InRange (z : Int) : Prop :=
  leastInteger ≤ z ∧ z ≤ greatestInteger

theorem readUp_zero_eq_ok_iff {c : Char} {rest : List Char} {z : Int} :
    readUp 0 (c :: rest) = .ok z ↔
      (IsDigits (c :: rest) ∧ z = decimal (c :: rest)) ∧ InRange z := by
  rw [isDigits_cons, and_assoc]
  refine (readUp_eq_ok_iff (n := 0) (by decide)).trans ?_
  refine and_congr_right fun _ => and_congr_right fun hz => (and_iff_right ?_).symm
  rw [leastInteger]
  omega

theorem readDown_zero_eq_ok_iff {c : Char} {rest : List Char} {z : Int} :
    readDown 0 (c :: rest) = .ok z ↔
      (IsDigits (c :: rest) ∧ z = -decimal (c :: rest)) ∧ InRange z := by
  rw [isDigits_cons, and_assoc]
  refine (readDown_eq_ok_iff (n := 0) (by decide)).trans ?_
  refine and_congr_right fun _ => and_congr_right fun hz => (and_iff_left ?_).symm
  rw [greatestInteger]
  omega

theorem readInteger_of_ne_sign {c : Char} (hplus : c ≠ '+') (hminus : c ≠ '-')
    (rest : List Char) : readInteger (c :: rest) = readUp 0 (c :: rest) := by
  rw [readInteger.eq_def]
  split <;> simp_all

/-- **INTEGERS**: exactly the numerals of integers in the range are read. -/
theorem readInteger_eq_ok_iff {chars : List Char} {z : Int} :
    readInteger chars = .ok z ↔ Numeral chars z ∧ InRange z := by
  match chars with
  | [] =>
      refine iff_of_false (fun h => nomatch h) fun ⟨h, _⟩ => ?_
      cases h with
      | plain h => exact h.ne_nil rfl
  | c :: rest =>
      by_cases hplus : c = '+'
      · subst hplus
        rw [numeral_plus_iff]
        cases rest with
        | nil => exact iff_of_false (fun h => nomatch h) fun h => h.1.1.ne_nil rfl
        | cons d more => exact readUp_zero_eq_ok_iff
      by_cases hminus : c = '-'
      · subst hminus
        rw [numeral_minus_iff]
        cases rest with
        | nil => exact iff_of_false (fun h => nomatch h) fun h => h.1.1.ne_nil rfl
        | cons d more => exact readDown_zero_eq_ok_iff
      · rw [readInteger_of_ne_sign hplus hminus, numeral_iff_of_ne_sign hplus hminus]
        exact readUp_zero_eq_ok_iff

/-- **LEVELS**: exactly the numerals of numbers up to the greatest level are
    read, whatever their length. -/
theorem readLevel_eq_ok_iff {chars : List Char} {n : Nat} :
    readLevel chars = .ok n ↔ Numeral chars n ∧ n ≤ greatestLevel := by
  constructor
  · intro h
    rw [readLevel] at h
    cases hread : readInteger chars with
    | error e =>
        rw [hread] at h
        cases h
    | ok z =>
        rw [hread] at h
        dsimp only at h
        split at h
        · next hrange =>
            obtain rfl := Except.ok.inj h
            have hnumeral := (readInteger_eq_ok_iff.mp hread).1
            rw [← Int.toNat_of_nonneg hrange.1] at hnumeral
            exact ⟨hnumeral, by omega⟩
        · cases h
  · rintro ⟨hnumeral, hle⟩
    have hrange : InRange n := by
      rw [greatestLevel] at hle
      rw [InRange, leastInteger, greatestInteger]
      omega
    rw [readLevel, readInteger_eq_ok_iff.mpr ⟨hnumeral, hrange⟩]
    dsimp only
    rw [if_pos ⟨Int.natCast_nonneg n, Int.ofNat_le.mpr hle⟩, Int.toNat_natCast]

end TreeSketch.CommandLine
