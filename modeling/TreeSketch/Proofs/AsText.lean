import TreeSketch.Proofs.Encoding
import TreeSketch.Proofs.ReadBack

/-! # A drawing as a text

    Names may be any bytes, but what is drawn of them is text, and so are the
    glyphs between them.  So what a drawing leaves in its sink is the
    encoding of a text, however far it came (`exists_encode_held`), and
    reading it back replaces nothing: `renderToString_lossless`. -/

namespace TreeSketch

/-- What a drawing holds is the encoding of a text, also if it failed. -/
theorem exists_encode_held (list : Lister) (maxLevel : Nat) (root : Path) :
    ∃ text, Text.encode text = (render list maxLevel root .unlimited).sink.held := by
  rw [held_eq_lines_drawn, Trail.lines_eq_encode]
  exact ⟨_, rfl⟩

/-- **AS A TEXT**: what a drawing writes into a sink without limit is valid
    UTF-8, complete or not.  Drawn as a text it succeeds exactly when it
    does otherwise, with a text of exactly these bytes, which is also what a
    reader has that replaces nothing; and it fails with the same error. -/
theorem renderToString_lossless (files : FileSystem) (maxLevel : Nat) (root : Path) :
    (render files.list maxLevel root .unlimited).sink.held.toByteArray.IsValidUTF8 ∧
    ((∃ text, (renderToString files.list maxLevel root).result = .ok text) ↔
      ∃ stats, (render files.list maxLevel root .unlimited).result = .ok stats) ∧
    (∀ text, (renderToString files.list maxLevel root).result = .ok text →
      text.toByteArray = (render files.list maxLevel root .unlimited).sink.held.toByteArray ∧
        Text.decode? (render files.list maxLevel root .unlimited).sink.held = some text) ∧
    ∀ e, (renderToString files.list maxLevel root).result = .error e ↔
      (render files.list maxLevel root .unlimited).result = .error e := by
  obtain ⟨text, htext⟩ := exists_encode_held files.list maxLevel root
  refine ⟨Text.isValidUTF8_iff.mpr ⟨text, htext⟩, ?_⟩
  rw [renderToString, ← htext, Text.decodeLossy_encode]
  cases (render files.list maxLevel root .unlimited).result with
  | ok stats =>
      refine ⟨⟨fun _ => ⟨stats, rfl⟩, fun _ => ⟨text, rfl⟩⟩, ?_, ?_⟩
      · intro text' h
        obtain rfl := Except.ok.inj h
        exact ⟨(Text.toByteArray_encode text).symm, Text.decode?_encode text⟩
      · intro e
        constructor
        · intro h; cases h
        · intro h; cases h
  | error e =>
      refine ⟨⟨?_, ?_⟩, ?_, ?_⟩
      · rintro ⟨text', h⟩; cases h
      · rintro ⟨stats, h⟩; cases h
      · intro text' h; cases h
      · intro e'
        constructor
        · intro h; exact congrArg Except.error (Except.error.inj h)
        · intro h; exact congrArg Except.error (Except.error.inj h)

end TreeSketch
