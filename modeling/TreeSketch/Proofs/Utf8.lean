import Mathlib
import TreeSketch.Text.Utf8

/-! # What is written is read

    The bytes of a character are a first one, which says how many follow,
    and those that follow, with six bits each (`tailBytes`).  The machine
    that cuts a byte string into segments goes from the first byte to the
    last and comes to the character (`scan_encodeChar`), so a text is read
    back from its bytes (`decode?_encode`).

    Conversely a character below U+0080 can only come from its own byte:
    what is begun by a longer sequence stands for at least U+0080
    (`Begun.IsLong`).  So no text that is shown for a byte string has such
    a character without the byte (`byte_mem_of_mem_decodeLossy`).

    And no byte is lost: what is begun is spelled by the bytes seen of it
    (`Begun.IsSpelled`), so the segments hold all bytes in order
    (`flatMap_bytes_segments`), and bytes that are read as a text are its
    encoding (`encode_of_decode?`). -/

namespace TreeSketch.Text

/-! ## Reading back -/

/-- The byte with the six bits of a number above `n` times six others. -/
def tailByte (v n : Nat) : UInt8 :=
  UInt8.ofNat (v / 64 ^ n % 64 + 0x80)

/-- The last bytes of a character, with six bits of its number in each. -/
def tailBytes (v : Nat) : Nat → Bytes
  | 0 => []
  | n + 1 => tailByte v n :: tailBytes v n

/-- That what has begun goes on to a number: it has the bits above those
    still owed, and allows the next byte. -/
structure Begun.GoesOnTo (begun : Begun) (v : Nat) : Prop where
  bits : begun.bits = v / 64 ^ (begun.owed + 1)
  least_le : begun.least.toNat ≤ v / 64 ^ begun.owed % 64 + 0x80
  le_greatest : v / 64 ^ begun.owed % 64 + 0x80 ≤ begun.greatest.toNat

theorem toNat_ofNat_of_lt {n : Nat} (h : n < 0x100) : (UInt8.ofNat n).toNat = n :=
  UInt8.toNat_ofNat_of_lt' h

theorem toNat_tailByte (v n : Nat) : (tailByte v n).toNat = v / 64 ^ n % 64 + 0x80 :=
  toNat_ofNat_of_lt (by omega)

namespace Begun.GoesOnTo

variable {begun : Begun} {v : Nat}

theorem allowed (h : begun.GoesOnTo v) :
    begun.least ≤ tailByte v begun.owed ∧ tailByte v begun.owed ≤ begun.greatest := by
  rw [UInt8.le_iff_toNat_le, UInt8.le_iff_toNat_le, toNat_tailByte]
  exact ⟨h.least_le, h.le_greatest⟩

theorem bits_next (h : begun.GoesOnTo v) :
    begun.bits * 64 + ((tailByte v begun.owed).toNat - 0x80) = v / 64 ^ begun.owed := by
  rw [h.bits, toNat_tailByte, Nat.pow_succ, ← Nat.div_div_eq_div_mul, Nat.add_sub_cancel]
  exact Nat.div_add_mod' _ 64

end Begun.GoesOnTo

/-- **THE REST**: the machine reads the bytes that are owed and comes to the
    character. -/
theorem scan_tailBytes {v : Nat} (rest : Bytes) :
    ∀ {owed : Nat} {seen : Bytes} {bits : Nat} {least greatest : UInt8},
      (Begun.mk seen bits owed least greatest).GoesOnTo v →
      scan (some ⟨seen, bits, owed, least, greatest⟩) (tailBytes v (owed + 1) ++ rest) =
        .char (Char.ofNat v) :: scan none rest := by
  -- on the bytes owed; each adds its six bits to the number
  intro owed
  induction owed with
  | zero =>
      intro seen bits least greatest h
      have hbits : bits * 64 + ((tailByte v 0).toNat - 0x80) = v :=
        h.bits_next.trans (Nat.div_one v)
      have hstep : step (some ⟨seen, bits, 0, least, greatest⟩) (tailByte v 0) =
          ([.char (Char.ofNat (bits * 64 + ((tailByte v 0).toNat - 0x80)))], none) :=
        if_pos h.allowed
      rw [tailBytes, List.cons_append, scan, hstep, hbits]
      rfl
  | succ owed ih =>
      intro seen bits least greatest h
      have hstep : step (some ⟨seen, bits, owed + 1, least, greatest⟩) (tailByte v (owed + 1)) =
          ([], some ⟨seen ++ [tailByte v (owed + 1)],
            bits * 64 + ((tailByte v (owed + 1)).toNat - 0x80), owed, 0x80, 0xBF⟩) :=
        if_pos h.allowed
      rw [tailBytes, List.cons_append, scan, hstep]
      refine ih ⟨h.bits_next, ?_, ?_⟩
      · exact Nat.le_add_left 0x80 _
      · show v / 64 ^ owed % 64 + 0x80 ≤ 0xBF
        omega

/-! ### First bytes -/

theorem opening_of_le {b : UInt8} (h : b.toNat ≤ 0x7F) : opening b = .whole (Char.ofNat b.toNat) :=
  if_pos (UInt8.le_iff_toNat_le.mpr h)

/-- The first byte of two. -/
theorem opening_two {b : UInt8} (h : 0xC2 ≤ b.toNat) (h' : b.toNat ≤ 0xDF) :
    opening b = .longer ⟨[b], b.toNat - 0xC0, 0, 0x80, 0xBF⟩ := by
  unfold opening
  simp only [UInt8.le_iff_toNat_le, UInt8.lt_iff_toNat_lt, UInt8.reduceToNat]
  rw [if_neg (by omega), if_neg (by omega), if_pos (by omega)]

/-- The first byte of three. -/
theorem opening_three {b : UInt8} (h : 0xE0 ≤ b.toNat) (h' : b.toNat ≤ 0xEF) :
    opening b = .longer ⟨[b], b.toNat - 0xE0, 1, if b.toNat = 0xE0 then 0xA0 else 0x80,
      if b.toNat = 0xED then 0x9F else 0xBF⟩ := by
  unfold opening
  simp only [UInt8.le_iff_toNat_le, UInt8.lt_iff_toNat_lt, ← UInt8.toNat_inj, UInt8.reduceToNat]
  rw [if_neg (by omega), if_neg (by omega), if_neg (by omega)]
  by_cases hleast : b.toNat = 0xE0
  · rw [if_pos hleast, if_pos hleast, if_neg (by omega), hleast]
  · rw [if_neg hleast, if_neg hleast]
    by_cases hgreatest : b.toNat = 0xED
    · rw [if_pos hgreatest, if_pos hgreatest, hgreatest]
    · rw [if_neg hgreatest, if_neg hgreatest, if_pos h']

/-- The first byte of four. -/
theorem opening_four {b : UInt8} (h : 0xF0 ≤ b.toNat) (h' : b.toNat ≤ 0xF4) :
    opening b = .longer ⟨[b], b.toNat - 0xF0, 2, if b.toNat = 0xF0 then 0x90 else 0x80,
      if b.toNat = 0xF4 then 0x8F else 0xBF⟩ := by
  unfold opening
  simp only [UInt8.le_iff_toNat_le, UInt8.lt_iff_toNat_lt, ← UInt8.toNat_inj, UInt8.reduceToNat]
  rw [if_neg (by omega), if_neg (by omega), if_neg (by omega), if_neg (by omega),
    if_neg (by omega), if_neg (by omega)]
  by_cases hleast : b.toNat = 0xF0
  · rw [if_pos hleast, if_pos hleast, if_neg (by omega), hleast]
  · rw [if_neg hleast, if_neg hleast]
    by_cases hgreatest : b.toNat = 0xF4
    · rw [if_neg (by omega), if_pos hgreatest, if_pos hgreatest, hgreatest]
    · rw [if_pos (by omega), if_neg hgreatest]

theorem scan_of_longer {b : UInt8} {begun : Begun} (h : opening b = .longer begun) (rest : Bytes) :
    scan none (b :: rest) = scan (some begun) rest := by
  rw [scan, step, start, h]
  rfl

/-- What a first byte begins is read to the end if it goes on to the
    character. -/
theorem scan_of_goesOnTo {b : UInt8} {begun : Begun} {v : Nat} (hopening : opening b = .longer begun)
    (h : begun.GoesOnTo v) (rest : Bytes) :
    scan none (b :: tailBytes v (begun.owed + 1) ++ rest) = .char (Char.ofNat v) :: scan none rest := by
  rw [List.cons_append, scan_of_longer hopening, scan_tailBytes rest h]

/-- A character's bytes: itself, or a first one and those that follow. -/
theorem encodeChar_eq (c : Char) :
    encodeChar c =
      if c.toNat ≤ 0x7F then [UInt8.ofNat c.toNat]
      else if c.toNat ≤ 0x7FF then UInt8.ofNat (c.toNat / 64 % 32 + 0xC0) :: tailBytes c.toNat 1
      else if c.toNat ≤ 0xFFFF then UInt8.ofNat (c.toNat / 4096 % 16 + 0xE0) :: tailBytes c.toNat 2
      else UInt8.ofNat (c.toNat / 262144 % 8 + 0xF0) :: tailBytes c.toNat 3 := by
  rw [encodeChar, String.utf8EncodeChar.eq_1]
  simp [tailBytes, tailByte]

section Numbers

variable {v : Nat} (rest : Bytes)

theorem scan_two (h : 0x80 ≤ v) (h' : v ≤ 0x7FF) :
    scan none (UInt8.ofNat (v / 64 % 32 + 0xC0) :: tailBytes v 1 ++ rest) =
      .char (Char.ofNat v) :: scan none rest := by
  have hbyte := toNat_ofNat_of_lt (n := v / 64 % 32 + 0xC0) (by omega)
  refine scan_of_goesOnTo (opening_two (by omega) (by omega)) ⟨?_, ?_, ?_⟩ rest
  · show UInt8.toNat _ - 0xC0 = v / 64
    omega
  · exact Nat.le_add_left 0x80 _
  · show v / 1 % 64 + 0x80 ≤ 0xBF
    omega

/-- The second of three bytes is bounded below for overlong forms, and above
    for surrogates. -/
theorem scan_three (h : 0x800 ≤ v) (h' : v ≤ 0xFFFF) (hvalid : v < 0xD800 ∨ 0xDFFF < v) :
    scan none (UInt8.ofNat (v / 4096 % 16 + 0xE0) :: tailBytes v 2 ++ rest) =
      .char (Char.ofNat v) :: scan none rest := by
  have hbyte := toNat_ofNat_of_lt (n := v / 4096 % 16 + 0xE0) (by omega)
  refine scan_of_goesOnTo (opening_three (by omega) (by omega)) ⟨?_, ?_, ?_⟩ rest
  · show UInt8.toNat _ - 0xE0 = v / 4096
    omega
  · simp only [apply_ite UInt8.toNat, UInt8.reduceToNat, Nat.reducePow]
    split
    · omega
    · exact Nat.le_add_left 0x80 _
  · simp only [apply_ite UInt8.toNat, UInt8.reduceToNat, Nat.reducePow]
    split
    · omega
    · omega

/-- The second of four bytes is bounded below for overlong forms, and above
    for numbers that are too great. -/
theorem scan_four (h : 0x10000 ≤ v) (h' : v < 0x110000) :
    scan none (UInt8.ofNat (v / 262144 % 8 + 0xF0) :: tailBytes v 3 ++ rest) =
      .char (Char.ofNat v) :: scan none rest := by
  have hbyte := toNat_ofNat_of_lt (n := v / 262144 % 8 + 0xF0) (by omega)
  refine scan_of_goesOnTo (opening_four (by omega) (by omega)) ⟨?_, ?_, ?_⟩ rest
  · show UInt8.toNat _ - 0xF0 = v / 262144
    omega
  · simp only [apply_ite UInt8.toNat, UInt8.reduceToNat, Nat.reducePow]
    split
    · omega
    · exact Nat.le_add_left 0x80 _
  · simp only [apply_ite UInt8.toNat, UInt8.reduceToNat, Nat.reducePow]
    split
    · omega
    · omega

end Numbers

/-- **ONE CHARACTER**: its bytes are read as the character. -/
theorem scan_encodeChar (c : Char) (rest : Bytes) :
    scan none (encodeChar c ++ rest) = .char c :: scan none rest := by
  have hvalid : c.toNat < 0xD800 ∨ 0xDFFF < c.toNat ∧ c.toNat < 0x110000 := c.valid
  have hc := Char.ofNat_toNat c
  rw [encodeChar_eq]
  split
  · next hone =>
      have hbyte := toNat_ofNat_of_lt (n := c.toNat) (by omega)
      have hopening := opening_of_le (b := UInt8.ofNat c.toNat) (by omega)
      rw [hbyte, hc] at hopening
      rw [List.singleton_append, scan, step, start, hopening]
      rfl
  split
  · next hone htwo => rw [scan_two rest (by omega) htwo, hc]
  split
  · next htwo hthree => rw [scan_three rest (by omega) hthree (by omega), hc]
  · next hthree => rw [scan_four rest (by omega) (by omega), hc]

/-- **A TEXT** is cut into its characters. -/
theorem segments_encode (text : String) : segments (encode text) = text.toList.map .char := by
  rw [segments, encode]
  induction text.toList with
  | nil => rfl
  | cons c rest ih => rw [List.flatMap_cons, scan_encodeChar, ih, List.map_cons]

theorem decode?_encode (text : String) : decode? (encode text) = some text := by
  have hchars : (text.toList.map Segment.char).mapM Segment.char? = some text.toList := by
    induction text.toList with
    | nil => rfl
    | cons c rest ih => simp [ih, Segment.char?]
  rw [decode?, segments_encode, hchars, Option.map_some, String.ofList_toList]

/-! ## Characters below U+0080 -/

/-- That what has begun stands for at least U+0080, however it goes on. -/
def Begun.IsLong (begun : Begun) : Prop :=
  0x80 ≤ (begun.bits * 64 + (begun.least.toNat - 0x80)) * 64 ^ begun.owed

theorem opening_never {b : UInt8} (h : 0x80 ≤ b.toNat ∧ b.toNat < 0xC2 ∨ 0xF5 ≤ b.toNat) :
    opening b = .never := by
  unfold opening
  simp only [UInt8.le_iff_toNat_le, UInt8.lt_iff_toNat_lt, ← UInt8.toNat_inj, UInt8.reduceToNat]
  rw [if_neg (by omega)]
  by_cases hlow : b.toNat < 0xC2
  · rw [if_pos hlow]
  · rw [if_neg hlow, if_neg (by omega), if_neg (by omega), if_neg (by omega), if_neg (by omega),
      if_neg (by omega), if_neg (by omega), if_neg (by omega)]

/-- A byte is a character below U+0080, or begins something long, or begins
    nothing. -/
theorem opening_cases (b : UInt8) :
    (b.toNat ≤ 0x7F ∧ opening b = .whole (Char.ofNat b.toNat)) ∨
      (∃ begun, opening b = .longer begun ∧ begun.IsLong) ∨ opening b = .never := by
  by_cases hone : b.toNat ≤ 0x7F
  · exact Or.inl ⟨hone, opening_of_le hone⟩
  by_cases hnever : 0x80 ≤ b.toNat ∧ b.toNat < 0xC2 ∨ 0xF5 ≤ b.toNat
  · exact Or.inr (Or.inr (opening_never hnever))
  refine Or.inr (Or.inl ?_)
  by_cases htwo : b.toNat ≤ 0xDF
  · refine ⟨_, opening_two (by omega) htwo, ?_⟩
    simp only [Begun.IsLong, UInt8.reduceToNat, Nat.reducePow]
    omega
  by_cases hthree : b.toNat ≤ 0xEF
  · refine ⟨_, opening_three (by omega) hthree, ?_⟩
    by_cases hleast : b.toNat = 0xE0
    · simp only [Begun.IsLong, if_pos hleast, UInt8.reduceToNat, Nat.reducePow]
      omega
    · simp only [Begun.IsLong, if_neg hleast, UInt8.reduceToNat, Nat.reducePow]
      omega
  · refine ⟨_, opening_four (by omega) (by omega), ?_⟩
    by_cases hleast : b.toNat = 0xF0
    · simp only [Begun.IsLong, if_pos hleast, UInt8.reduceToNat, Nat.reducePow]
      omega
    · simp only [Begun.IsLong, if_neg hleast, UInt8.reduceToNat, Nat.reducePow]
      omega

/-- That a step completes no character below U+0080 but the byte's own, and
    leaves nothing begun but what is long.  U+0000 is left out: a number
    that is no character's stands for it too. -/
structure KeepsLong (b : UInt8) (outcome : List Segment × Option Begun) : Prop where
  own : ∀ c, .char c ∈ outcome.1 → 0 < c.toNat → c.toNat < 0x80 → b = UInt8.ofNat c.toNat
  long : ∀ begun, outcome.2 = some begun → begun.IsLong

theorem keepsLong_start (b : UInt8) : KeepsLong b (start b) := by
  rw [start]
  rcases opening_cases b with ⟨hone, hwhole⟩ | ⟨begun, hlonger, hlong⟩ | hnever
  · rw [hwhole]
    refine ⟨fun c hc _ _ => ?_, fun _ h => nomatch h⟩
    have hvalid : b.toNat.isValidChar := Or.inl (by omega)
    rw [Segment.char.inj (List.mem_singleton.mp hc), Char.toNat_ofNat, if_pos hvalid]
    exact (UInt8.ofNat_toNat).symm
  · rw [hlonger]
    exact ⟨fun _ hc => (List.not_mem_nil hc).elim, fun _ h => Option.some.inj h ▸ hlong⟩
  · rw [hnever]
    refine ⟨fun _ hc => ?_, fun _ h => nomatch h⟩
    exact nomatch List.mem_singleton.mp hc

/-- A byte that is allowed next brings the number to U+0080 at least, with
    whatever is still owed. -/
theorem Begun.IsLong.le_bits {begun : Begun} (h : begun.IsLong) {b : UInt8} (hb : begun.least ≤ b) :
    0x80 ≤ (begun.bits * 64 + (b.toNat - 0x80)) * 64 ^ begun.owed := by
  have hleast := UInt8.le_iff_toNat_le.mp hb
  have hmore : begun.bits * 64 + (begun.least.toNat - 0x80) ≤
      begun.bits * 64 + (b.toNat - 0x80) := by omega
  exact Nat.le_trans h (Nat.mul_le_mul_right (64 ^ begun.owed) hmore)

/-- **ONE BYTE** keeps what has begun long. -/
theorem keepsLong_step {state : Option Begun} (h : ∀ begun, state = some begun → begun.IsLong)
    (b : UInt8) : KeepsLong b (step state b) := by
  cases state with
  | none => exact keepsLong_start b
  | some begun =>
      rw [step]
      split
      · next hrange =>
          have hbits := (h begun rfl).le_bits hrange.1
          dsimp only
          split
          · next howed =>
              refine ⟨fun c hc hpos hlt => ?_, fun _ h => nomatch h⟩
              rw [howed, Nat.pow_zero, Nat.mul_one] at hbits
              -- a number that is no character's gives U+0000, which is left out
              rw [Segment.char.inj (List.mem_singleton.mp hc), Char.toNat_ofNat] at hpos hlt
              by_cases hvalid : (begun.bits * 64 + (b.toNat - 0x80)).isValidChar
              · rw [if_pos hvalid] at hlt
                omega
              · rw [if_neg hvalid] at hpos
                cases hpos
          · next owed howed =>
              refine ⟨fun _ hc => (List.not_mem_nil hc).elim, fun next hnext => ?_⟩
              rw [howed, Nat.pow_succ'] at hbits
              rw [← Option.some.inj hnext]
              simpa only [Begun.IsLong, UInt8.reduceToNat, Nat.sub_self, Nat.add_zero,
                Nat.mul_assoc] using hbits
      · obtain ⟨hown, hnext⟩ := keepsLong_start b
        refine ⟨fun c hc => ?_, hnext⟩
        rcases List.mem_cons.mp hc with hstray | hc
        · exact nomatch hstray
        · exact hown c hc

/-- **ALL BYTES**: so a character below U+0080 has its byte. -/
theorem byte_mem_of_mem_scan {c : Char} (hpos : 0 < c.toNat) (hlt : c.toNat < 0x80) {bytes : Bytes} :
    ∀ {state : Option Begun}, (∀ begun, state = some begun → begun.IsLong) →
      .char c ∈ scan state bytes → UInt8.ofNat c.toNat ∈ bytes := by
  induction bytes with
  | nil =>
      intro state _ hc
      cases state with
      | none => exact nomatch hc
      | some begun => exact nomatch List.mem_singleton.mp hc
  | cons b rest ih =>
      intro state hstate hc
      obtain ⟨hown, hnext⟩ := keepsLong_step hstate b
      rw [scan] at hc
      rcases List.mem_append.mp hc with hc | hc
      · exact hown c hc hpos hlt ▸ List.mem_cons_self
      · exact List.mem_cons_of_mem b (ih hnext hc)

/-- What is shown for a byte string has a character below U+0080 only if its
    byte is there. -/
theorem byte_mem_of_mem_decodeLossy {bytes : Bytes} {c : Char} (h : c ∈ (decodeLossy bytes).toList)
    (hpos : 0 < c.toNat) (hlt : c.toNat < 0x80) : UInt8.ofNat c.toNat ∈ bytes := by
  rw [decodeLossy, String.toList_ofList] at h
  obtain ⟨segment, hsegment, rfl⟩ := List.mem_map.mp h
  cases segment with
  | char c =>
      refine byte_mem_of_mem_scan hpos hlt (fun _ hnone => ?_) hsegment
      cases hnone
  | stray stray => exact absurd hlt (by decide : ¬ '\uFFFD'.toNat < 0x80)

/-! ## Nothing is lost -/

/-- That whatever number something begun goes on to, the bytes seen are the
    first ones of its character. -/
structure Begun.IsSpelled (begun : Begun) : Prop where
  le_least : 0x80 ≤ begun.least.toNat
  greatest_le : begun.greatest.toNat ≤ 0xBF
  spells : ∀ v, begun.GoesOnTo v →
    encodeChar (Char.ofNat v) = begun.seen ++ tailBytes v (begun.owed + 1)

theorem toNat_charOfNat {v : Nat} (h : v < 0xD800 ∨ 0xDFFF < v ∧ v < 0x110000) :
    (Char.ofNat v).toNat = v := by
  rw [Char.toNat_ofNat, if_pos h]

theorem isSpelled_two {b : UInt8} (h : 0xC2 ≤ b.toNat) (h' : b.toNat ≤ 0xDF) :
    Begun.IsSpelled ⟨[b], b.toNat - 0xC0, 0, 0x80, 0xBF⟩ := by
  refine ⟨Nat.le_refl 0x80, Nat.le_refl 0xBF, fun v hv => ?_⟩
  have hbits := hv.bits
  simp only [Nat.reduceAdd, Nat.pow_one] at hbits
  have hfirst : v / 64 % 32 + 0xC0 = b.toNat := by omega
  rw [encodeChar_eq, toNat_charOfNat (by omega), if_neg (by omega), if_pos (by omega), hfirst,
    UInt8.ofNat_toNat]
  rfl

theorem isSpelled_three {b : UInt8} (h : 0xE0 ≤ b.toNat) (h' : b.toNat ≤ 0xEF) :
    Begun.IsSpelled ⟨[b], b.toNat - 0xE0, 1, if b.toNat = 0xE0 then 0xA0 else 0x80,
      if b.toNat = 0xED then 0x9F else 0xBF⟩ := by
  refine ⟨?_, ?_, fun v ⟨hbits, hleast, hgreatest⟩ => ?_⟩
  · simp only [apply_ite UInt8.toNat, UInt8.reduceToNat]
    split <;> omega
  · simp only [apply_ite UInt8.toNat, UInt8.reduceToNat]
    split <;> omega
  · simp only [Nat.reduceAdd, Nat.reducePow, apply_ite UInt8.toNat, UInt8.reduceToNat]
      at hbits hleast hgreatest
    have hfirst : v / 4096 % 16 + 0xE0 = b.toNat := by omega
    have hlong : 0x800 ≤ v := by
      split at hleast <;> omega
    have hvalid : v < 0xD800 ∨ 0xDFFF < v := by
      split at hgreatest <;> omega
    rw [encodeChar_eq, toNat_charOfNat (by omega), if_neg (by omega), if_neg (by omega),
      if_pos (by omega), hfirst, UInt8.ofNat_toNat]
    rfl

theorem isSpelled_four {b : UInt8} (h : 0xF0 ≤ b.toNat) (h' : b.toNat ≤ 0xF4) :
    Begun.IsSpelled ⟨[b], b.toNat - 0xF0, 2, if b.toNat = 0xF0 then 0x90 else 0x80,
      if b.toNat = 0xF4 then 0x8F else 0xBF⟩ := by
  refine ⟨?_, ?_, fun v ⟨hbits, hleast, hgreatest⟩ => ?_⟩
  · simp only [apply_ite UInt8.toNat, UInt8.reduceToNat]
    split <;> omega
  · simp only [apply_ite UInt8.toNat, UInt8.reduceToNat]
    split <;> omega
  · simp only [Nat.reduceAdd, Nat.reducePow, apply_ite UInt8.toNat, UInt8.reduceToNat]
      at hbits hleast hgreatest
    have hfirst : v / 262144 % 8 + 0xF0 = b.toNat := by omega
    have hlong : 0x10000 ≤ v := by
      split at hleast <;> omega
    have hvalid : v < 0x110000 := by
      split at hgreatest <;> omega
    rw [encodeChar_eq, toNat_charOfNat (by omega), if_neg (by omega), if_neg (by omega),
      if_neg (by omega), hfirst, UInt8.ofNat_toNat]
    rfl

/-- What a byte begins is spelled, and the byte is all that is seen of it. -/
theorem isSpelled_of_opening {b : UInt8} {begun : Begun} (h : opening b = .longer begun) :
    begun.IsSpelled ∧ begun.seen = [b] := by
  by_cases hone : b.toNat ≤ 0x7F
  · rw [opening_of_le hone] at h
    cases h
  by_cases hnever : 0x80 ≤ b.toNat ∧ b.toNat < 0xC2 ∨ 0xF5 ≤ b.toNat
  · rw [opening_never hnever] at h
    cases h
  by_cases htwo : b.toNat ≤ 0xDF
  · rw [opening_two (by omega) htwo] at h
    obtain rfl := Opening.longer.inj h
    exact ⟨isSpelled_two (by omega) htwo, rfl⟩
  by_cases hthree : b.toNat ≤ 0xEF
  · rw [opening_three (by omega) hthree] at h
    obtain rfl := Opening.longer.inj h
    exact ⟨isSpelled_three (by omega) hthree, rfl⟩
  · rw [opening_four (by omega) (by omega)] at h
    obtain rfl := Opening.longer.inj h
    exact ⟨isSpelled_four (by omega) (by omega), rfl⟩

/-- A byte that is allowed next is the one that carries the next bits of a
    number that has the bits above it. -/
theorem Begun.IsSpelled.goesOnTo {begun : Begun} (h : begun.IsSpelled) {b : UInt8}
    (hleast : begun.least ≤ b) (hgreatest : b ≤ begun.greatest) {v : Nat}
    (hbits : begun.bits * 64 + (b.toNat - 0x80) = v / 64 ^ begun.owed) :
    begun.GoesOnTo v ∧ tailByte v begun.owed = b := by
  have hlow := Nat.le_trans h.le_least (UInt8.le_iff_toNat_le.mp hleast)
  have hhigh := Nat.le_trans (UInt8.le_iff_toNat_le.mp hgreatest) h.greatest_le
  have hbyte : v / 64 ^ begun.owed % 64 + 0x80 = b.toNat := by omega
  refine ⟨⟨?_, ?_, ?_⟩, ?_⟩
  · rw [Nat.pow_succ, ← Nat.div_div_eq_div_mul]
    omega
  · rw [hbyte]
    exact UInt8.le_iff_toNat_le.mp hleast
  · rw [hbyte]
    exact UInt8.le_iff_toNat_le.mp hgreatest
  · rw [tailByte, hbyte, UInt8.ofNat_toNat]

/-- The bytes of what has begun. -/
def pending (state : Option Begun) : Bytes :=
  state.elim [] Begun.seen

/-- That segments and what is left begun hold just the bytes `bytes`, and
    what is left begun is spelled. -/
structure Keeps (bytes : Bytes) (outcome : List Segment × Option Begun) : Prop where
  bytes_eq : outcome.1.flatMap Segment.bytes ++ pending outcome.2 = bytes
  isSpelled : ∀ begun, outcome.2 = some begun → begun.IsSpelled

theorem encodeChar_ofNat_toNat {b : UInt8} (h : b.toNat ≤ 0x7F) :
    encodeChar (Char.ofNat b.toNat) = [b] := by
  rw [encodeChar_eq, toNat_charOfNat (by omega), if_pos h, UInt8.ofNat_toNat]

theorem keeps_start (b : UInt8) : Keeps [b] (start b) := by
  rw [start]
  rcases opening_cases b with ⟨hone, hwhole⟩ | ⟨begun, hlonger, -⟩ | hnever
  · rw [hwhole]
    exact ⟨by simp [Segment.bytes, pending, encodeChar_ofNat_toNat hone], fun _ h => nomatch h⟩
  · rw [hlonger]
    obtain ⟨hspelled, hseen⟩ := isSpelled_of_opening hlonger
    exact ⟨hseen, fun _ h => Option.some.inj h ▸ hspelled⟩
  · rw [hnever]
    exact ⟨rfl, fun _ h => nomatch h⟩

/-- **ONE BYTE** is kept. -/
theorem keeps_step {state : Option Begun} (h : ∀ begun, state = some begun → begun.IsSpelled)
    (b : UInt8) : Keeps (pending state ++ [b]) (step state b) := by
  cases state with
  | none => exact keeps_start b
  | some begun =>
      have hspelled := h begun rfl
      rw [step]
      split
      · next hrange =>
          dsimp only
          split
          · next howed =>
              have hbits : begun.bits * 64 + (b.toNat - 0x80) =
                  (begun.bits * 64 + (b.toNat - 0x80)) / 64 ^ begun.owed := by
                rw [howed, Nat.pow_zero, Nat.div_one]
              obtain ⟨hgoes, hbyte⟩ := hspelled.goesOnTo hrange.1 hrange.2 hbits
              refine ⟨?_, fun _ h => nomatch h⟩
              have := hspelled.spells _ hgoes
              rw [tailBytes, hbyte, howed, tailBytes] at this
              simpa [Segment.bytes, pending] using this
          · next owed howed =>
              refine ⟨rfl, fun next hnext => ?_⟩
              obtain rfl := Option.some.inj hnext
              refine ⟨Nat.le_refl 0x80, Nat.le_refl 0xBF, fun v hv => ?_⟩
              have hbits : _ = v / 64 ^ (owed + 1) := hv.bits
              rw [← Nat.succ_eq_add_one, ← howed] at hbits
              obtain ⟨hgoes, hbyte⟩ := hspelled.goesOnTo hrange.1 hrange.2 hbits
              rw [hspelled.spells v hgoes, tailBytes, hbyte, howed, List.append_assoc]
              rfl
      · obtain ⟨hbytes, hnext⟩ := keeps_start b
        refine ⟨?_, hnext⟩
        show (begun.seen ++ (start b).1.flatMap Segment.bytes) ++ _ = begun.seen ++ [b]
        rw [List.append_assoc, hbytes]

/-- **ALL BYTES**: so the segments of a byte string hold its bytes. -/
theorem flatMap_bytes_scan {bytes : Bytes} :
    ∀ {state : Option Begun}, (∀ begun, state = some begun → begun.IsSpelled) →
      (scan state bytes).flatMap Segment.bytes = pending state ++ bytes := by
  induction bytes with
  | nil =>
      intro state _
      cases state with
      | none => rfl
      | some begun => simp [scan, Segment.bytes, pending]
  | cons b rest ih =>
      intro state hstate
      obtain ⟨hbytes, hnext⟩ := keeps_step hstate b
      rw [scan, List.flatMap_append, ih hnext, ← List.append_assoc, hbytes, List.append_assoc,
        List.singleton_append]

theorem flatMap_bytes_segments (bytes : Bytes) : (segments bytes).flatMap Segment.bytes = bytes :=
  flatMap_bytes_scan fun _ h => nomatch h

theorem flatMap_bytes_of_chars {list : List Segment} :
    ∀ {chars : List Char}, list.mapM Segment.char? = some chars →
      list.flatMap Segment.bytes = chars.flatMap encodeChar := by
  induction list with
  | nil =>
      intro chars h
      cases h
      rfl
  | cons segment rest ih =>
      intro chars h
      cases segment with
      | stray stray => cases h
      | char c =>
          rw [List.mapM_cons] at h
          cases hrest : rest.mapM Segment.char? with
          | none =>
              rw [hrest] at h
              cases h
          | some more =>
              rw [hrest] at h
              cases h
              rw [List.flatMap_cons, List.flatMap_cons, ih hrest]
              rfl

/-- What is read as text is the text's encoding. -/
theorem encode_of_decode? {bytes : Bytes} {text : String} (h : decode? bytes = some text) :
    encode text = bytes := by
  obtain ⟨chars, hsegments, rfl⟩ := Option.map_eq_some_iff.mp h
  rw [encode, String.toList_ofList, ← flatMap_bytes_of_chars hsegments, flatMap_bytes_segments]

theorem splitSegments_bytes (list : List Segment) :
    (splitSegments list).1.flatMap encodeChar ++ (splitSegments list).2 =
      list.flatMap Segment.bytes := by
  induction list with
  | nil => rfl
  | cons segment rest ih =>
      cases segment with
      | stray bytes => rfl
      | char c =>
          rw [splitSegments, List.flatMap_cons, List.append_assoc, ih]
          rfl

/-- A byte string is the text it begins with and the bytes after it. -/
theorem encode_splitText (bytes : Bytes) :
    encode (String.ofList (splitText bytes).1) ++ (splitText bytes).2 = bytes := by
  rw [encode, String.toList_ofList, splitText, splitSegments_bytes, flatMap_bytes_segments]

end TreeSketch.Text
