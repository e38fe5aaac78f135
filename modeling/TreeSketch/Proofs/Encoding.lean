import TreeSketch.Path
import TreeSketch.Proofs.Utf8

/-! # Texts as byte strings

    Names are kept and sorted as bytes and shown as text.  Three facts
    relate the two:

    * a byte string is UTF-8 exactly if it is the encoding of a text
      (`isValidUTF8_iff`), and then what is shown for it is that text
      (`decodeLossy_encode`);
    * the bytes of texts stand in the order of their characters
      (`encode_lt_encode_iff`), so names that are sorted as bytes are sorted
      as texts;
    * a separator is never taken for a part of a character, so what is shown
      for a path is what is shown for its pieces
      (`decodeLossy_append_separator`). -/

namespace TreeSketch.Text

/-! ## Byte strings that are UTF-8 -/

theorem toByteArray_encode (text : String) : (encode text).toByteArray = text.toByteArray := by
  rw [← String.utf8Encode_toList]
  rfl

/-- A byte string is UTF-8 exactly if it is the encoding of a text. -/
theorem isValidUTF8_iff {bytes : Bytes} :
    bytes.toByteArray.IsValidUTF8 ↔ ∃ text, encode text = bytes := by
  constructor
  · rintro ⟨chars, hchars⟩
    refine ⟨String.ofList chars, ?_⟩
    have hdata := congrArg (fun array : ByteArray => array.data.toList) hchars
    simp only [List.utf8Encode, List.toList_data_toByteArray] at hdata
    rw [encode, String.toList_ofList, hdata]
    rfl
  · rintro ⟨text, rfl⟩
    rw [toByteArray_encode]
    exact text.isValidUTF8

theorem decodeLossy_encode (text : String) : decodeLossy (encode text) = text := by
  have hshown : (text.toList.map Segment.char).map Segment.shown = text.toList := by
    rw [List.map_map]
    exact List.map_id _
  rw [decodeLossy, segments_encode, hshown, String.ofList_toList]

/-! ## Order -/

/-- The first byte of a character, as a number. -/
def leadNumber (v : Nat) : Nat :=
  if v ≤ 0x7F then v
  else if v ≤ 0x7FF then v / 64 % 32 + 0xC0
  else if v ≤ 0xFFFF then v / 4096 % 16 + 0xE0
  else v / 262144 % 8 + 0xF0

/-- How many bytes follow the first. -/
def tailLength (v : Nat) : Nat :=
  if v ≤ 0x7F then 0 else if v ≤ 0x7FF then 1 else if v ≤ 0xFFFF then 2 else 3

theorem encodeChar_eq_cons (c : Char) :
    encodeChar c = UInt8.ofNat (leadNumber c.toNat) :: tailBytes c.toNat (tailLength c.toNat) := by
  rw [encodeChar_eq, leadNumber, tailLength]
  split_ifs <;> rfl

/-- Of two characters the first bytes are in order, or they are the same and
    as many follow, with a smaller number in them. -/
theorem leadNumber_lt_or {v w : Nat} (h : v < w) (hw : w < 0x110000) :
    leadNumber w < 0x100 ∧ (leadNumber v < leadNumber w ∨ leadNumber v = leadNumber w ∧
      tailLength v = tailLength w ∧ v % 64 ^ tailLength v < w % 64 ^ tailLength v) := by
  rw [leadNumber, leadNumber, tailLength, tailLength]
  split_ifs <;> simp only [Nat.reducePow, true_and] <;> omega

theorem cons_ofNat_lt_of_lt {m n : Nat} (h : m < n) (hn : n < 0x100) (a b : Bytes) :
    UInt8.ofNat m :: a < UInt8.ofNat n :: b := by
  refine List.cons_lt_cons_iff.mpr (Or.inl ?_)
  rw [UInt8.lt_iff_toNat_lt, toNat_ofNat_of_lt (Nat.lt_trans h hn), toNat_ofNat_of_lt hn]
  exact h

/-- Of as many bytes that follow, those with the smaller number come
    first. -/
theorem tailBytes_lt {v w : Nat} (a b : Bytes) :
    ∀ {n : Nat}, v % 64 ^ n < w % 64 ^ n → tailBytes v n ++ a < tailBytes w n ++ b := by
  intro n
  induction n with
  | zero => intro h; simp [Nat.mod_one] at h
  | succ n ih =>
      intro h
      rw [Nat.pow_succ, Nat.mod_mul, Nat.mod_mul] at h
      have hv := Nat.mod_lt v (Nat.pow_pos (n := n) (by decide : 0 < 64))
      rw [tailBytes, tailBytes, List.cons_append, List.cons_append, tailByte, tailByte]
      rcases Nat.lt_trichotomy (v / 64 ^ n % 64) (w / 64 ^ n % 64) with hlt | heq | hgt
      · exact cons_ofNat_lt_of_lt (by omega) (by omega) _ _
      · rw [heq] at h ⊢
        exact List.cons_lt_cons_iff.mpr (Or.inr ⟨rfl, ih (Nat.lt_of_add_lt_add_right h)⟩)
      · -- a greater first digit outweighs all that follow
        have hmul := Nat.mul_le_mul_left (64 ^ n) (Nat.succ_le_of_lt hgt)
        rw [Nat.mul_succ] at hmul
        omega

/-- **ONE CHARACTER**: a smaller one has the smaller bytes, whatever comes
    after. -/
theorem encodeChar_append_lt {c d : Char} (h : c < d) (a b : Bytes) :
    encodeChar c ++ a < encodeChar d ++ b := by
  have hvalid : d.toNat < 0xD800 ∨ 0xDFFF < d.toNat ∧ d.toNat < 0x110000 := d.valid
  have hnumbers : c.toNat < d.toNat := h
  obtain ⟨hbyte, hlead | ⟨hlead, hlength, htail⟩⟩ := leadNumber_lt_or hnumbers (by omega)
  · rw [encodeChar_eq_cons, encodeChar_eq_cons, List.cons_append, List.cons_append]
    exact cons_ofNat_lt_of_lt hlead hbyte _ _
  · rw [encodeChar_eq_cons, encodeChar_eq_cons, List.cons_append, List.cons_append, hlead,
      ← hlength]
    exact List.cons_lt_cons_iff.mpr (Or.inr ⟨rfl, tailBytes_lt a b htail⟩)

theorem flatMap_encodeChar_lt {b : List Char} :
    ∀ {a : List Char}, a < b → a.flatMap encodeChar < b.flatMap encodeChar := by
  induction b with
  | nil => intro a h; exact absurd h (List.not_lt_nil a)
  | cons d rest ih =>
      intro a h
      cases a with
      | nil =>
          rw [List.flatMap_nil, List.flatMap_cons, encodeChar_eq_cons, List.cons_append]
          exact List.nil_lt_cons _ _
      | cons c more =>
          rw [List.flatMap_cons, List.flatMap_cons]
          rcases List.cons_lt_cons_iff.mp h with hlt | ⟨rfl, hlt⟩
          · exact encodeChar_append_lt hlt _ _
          · exact List.append_left_lt (ih hlt)

/-- **ALL CHARACTERS**: the bytes of texts are in the order of the texts. -/
theorem encode_lt_encode_iff {a b : String} : encode a < encode b ↔ a < b := by
  constructor
  · intro h
    rcases lt_trichotomy a b with hlt | rfl | hgt
    · exact hlt
    · exact absurd h (List.lt_irrefl _)
    · exact absurd h (List.lt_asymm (flatMap_encodeChar_lt (String.lt_iff_toList_lt.mp hgt)))
  · intro h
    exact flatMap_encodeChar_lt (String.lt_iff_toList_lt.mp h)

/-! ## Separators -/

theorem step_separator {state : Option Begun}
    (h : ∀ begun, state = some begun → begun.IsSpelled) :
    (step state Path.separator).1 = scan state [] ++ [.char '/'] ∧
      (step state Path.separator).2 = none := by
  cases state with
  | none => exact ⟨rfl, rfl⟩
  | some begun =>
      have hleast := (h begun rfl).le_least
      have hrange : ¬ (begun.least ≤ Path.separator ∧ Path.separator ≤ begun.greatest) := by
        rintro ⟨hle, -⟩
        have hseparator : Path.separator.toNat = 0x2F := rfl
        have := UInt8.le_iff_toNat_le.mp hle
        omega
      rw [step, if_neg hrange]
      exact ⟨rfl, rfl⟩

/-- **A SEPARATOR** ends whatever has begun before it. -/
theorem scan_append_separator (after : Bytes) {before : Bytes} :
    ∀ {state : Option Begun}, (∀ begun, state = some begun → begun.IsSpelled) →
      scan state (before ++ Path.separator :: after) =
        scan state before ++ .char '/' :: segments after := by
  induction before with
  | nil =>
      intro state hstate
      obtain ⟨hsegments, hnext⟩ := step_separator hstate
      rw [List.nil_append, scan, hsegments, hnext, List.append_assoc]
      rfl
  | cons b rest ih =>
      intro state hstate
      rw [List.cons_append, scan, ih (keeps_step hstate b).isSpelled, ← List.append_assoc, ← scan]

/-- So what is shown for a path comes apart at each of its separators. -/
theorem decodeLossy_append_separator (before after : Bytes) :
    decodeLossy (before ++ Path.separator :: after) =
      decodeLossy before ++ "/" ++ decodeLossy after := by
  have hsegments : segments (before ++ Path.separator :: after) =
      segments before ++ .char '/' :: segments after :=
    scan_append_separator after fun _ h => nomatch h
  rw [decodeLossy, decodeLossy, decodeLossy, hsegments, List.map_append, List.map_cons,
    ← String.toList_inj]
  simp only [String.toList_ofList, String.toList_append]
  rw [List.append_assoc]
  rfl

end TreeSketch.Text
