import TreeSketch.Sink

/-! # Buffered output

    What is written to a buffer waits there until the next write does not
    fit beside it, or until the buffer is flushed; a write as long as the
    buffer never waits.  After a flush all that was written has passed, in
    order, however it was cut into writes (`passed_flush`, `written_writeAll`). -/

namespace TreeSketch

namespace Buffer

/-- How many bytes can wait. -/
def capacity : Nat :=
  8192

end Buffer

/-- Buffered output: the bytes that wait, no more than can, and those that
    have passed. -/
structure Buffer where
  waiting : Bytes
  passed : Bytes
  fits : waiting.length ≤ Buffer.capacity

namespace Buffer

/-- A buffer that nothing was written to. -/
def empty : Buffer :=
  ⟨[], [], Nat.zero_le _⟩

/-- Lets pass what waits. -/
def flush (buffer : Buffer) : Buffer :=
  ⟨[], buffer.passed ++ buffer.waiting, Nat.zero_le _⟩

/-- Lets pass what waits if so many more bytes do not fit beside it. -/
def makeRoom (buffer : Buffer) (length : Nat) : Buffer :=
  if capacity < buffer.waiting.length + length then buffer.flush else buffer

theorem makeRoom_fits (buffer : Buffer) {length : Nat} (h : length ≤ capacity) :
    (buffer.makeRoom length).waiting.length + length ≤ capacity := by
  rw [makeRoom]
  split
  · rw [flush, List.length_nil, Nat.zero_add]
    exact h
  · next hfits => exact Nat.le_of_not_lt hfits

/-- Bytes as many as can wait find nothing waiting before them. -/
theorem waiting_makeRoom (buffer : Buffer) {length : Nat} (h : capacity ≤ length) :
    (buffer.makeRoom length).waiting = [] := by
  rw [makeRoom]
  split
  · rfl
  · next hfits => exact List.eq_nil_of_length_eq_zero (by omega)

/-- Writes bytes; those that would fill the buffer alone do not wait. -/
def write (buffer : Buffer) (bytes : Bytes) : Buffer :=
  let ready := buffer.makeRoom bytes.length
  if h : capacity ≤ bytes.length then { ready with passed := ready.passed ++ bytes }
  else
    { ready with
      waiting := ready.waiting ++ bytes
      fits := by
        rw [List.length_append]
        exact makeRoom_fits buffer (Nat.le_of_not_le h) }

/-- A buffer takes everything. -/
instance : Writer Buffer := ⟨fun buffer bytes => (buffer.write bytes, none)⟩

/-- Writes pieces, one after the other. -/
def writeAll (buffer : Buffer) (pieces : List Bytes) : Buffer :=
  pieces.foldl write buffer

/-- All that was written, passed or not. -/
def written (buffer : Buffer) : Bytes :=
  buffer.passed ++ buffer.waiting

theorem written_makeRoom (buffer : Buffer) (length : Nat) :
    (buffer.makeRoom length).written = buffer.written := by
  rw [makeRoom]
  split
  · exact List.append_nil _
  · rfl

/-- **ONE WRITE** adds its bytes at the end, whether they wait or not. -/
theorem written_write (buffer : Buffer) (bytes : Bytes) :
    (buffer.write bytes).written = buffer.written ++ bytes := by
  have hready := buffer.written_makeRoom bytes.length
  rw [write]
  split
  · next hlong =>
    have hnone := buffer.waiting_makeRoom hlong
    simp only [written, hnone, List.append_nil] at hready ⊢
    rw [hready]
  · rw [← hready]
    exact (List.append_assoc _ _ _).symm

theorem written_writeAll (buffer : Buffer) (pieces : List Bytes) :
    (buffer.writeAll pieces).written = buffer.written ++ pieces.flatten := by
  induction pieces generalizing buffer with
  | nil => exact (List.append_nil _).symm
  | cons bytes rest ih =>
    rw [writeAll, List.foldl_cons, ← writeAll, ih, written_write, List.append_assoc,
      List.flatten_cons]

/-- **AFTER A FLUSH** all that was written has passed. -/
theorem passed_flush (buffer : Buffer) : buffer.flush.passed = buffer.written :=
  rfl

end Buffer

end TreeSketch
