import TreeSketch.Error

/-! # Where a drawing goes

    A drawing goes to a writer, whatever that is: it takes bytes and may
    fail.  A sink is a writer that holds what has been written to it.  One
    with limited room takes bytes until it is full, also a part of a write;
    what does not fit fails with the sink's own cause.  An empty write
    never fails.

    The bytes are kept newest first, so that a write costs no more than
    its own length; `held` is what the sink holds. -/

namespace TreeSketch

/-- What takes bytes.  A write that fails has a cause, and leaves the writer
    as it is by then. -/
class Writer (σ : Type) where
  write : σ → Bytes → σ × Option Cause

/-- A sink: the bytes it holds, newest first, how many more it can hold,
    and how it fails when it is full. -/
structure Sink where
  newest : Bytes
  room : Option Nat
  failure : Cause
  deriving DecidableEq, Repr

namespace Sink

/-- An empty sink that is never full. -/
def unlimited : Sink :=
  ⟨[], none, .nothingWritten⟩

/-- An empty sink that holds at most `capacity` bytes. -/
def bounded (capacity : Nat) (failure : Cause) : Sink :=
  ⟨[], some capacity, failure⟩

/-- The bytes a sink holds. -/
def held (sink : Sink) : Bytes :=
  sink.newest.reverse

/-- Adds bytes to what a sink holds. -/
def push (sink : Sink) (bytes : Bytes) : Sink :=
  { sink with newest := bytes.reverseAux sink.newest }

/-- Writes all of `bytes`, or as much as fits and then fails. -/
def write (sink : Sink) (bytes : Bytes) : Sink × Option Cause :=
  match sink.room with
  | none => (sink.push bytes, none)
  | some room =>
    if bytes.length ≤ room then
      ({ sink.push bytes with room := some (room - bytes.length) }, none)
    else
      ({ sink.push (bytes.take room) with room := some 0 }, some sink.failure)

instance : Writer Sink := ⟨write⟩

@[simp]
theorem held_push (sink : Sink) (bytes : Bytes) :
    (sink.push bytes).held = sink.held ++ bytes := by
  simp [held, push, List.reverseAux_eq]

@[simp]
theorem push_push (sink : Sink) (a b : Bytes) :
    (sink.push a).push b = sink.push (a ++ b) := by
  simp [push, List.reverseAux_eq]

@[simp]
theorem push_nil (sink : Sink) : sink.push [] = sink := rfl

/-- Without a limit a write adds its bytes. -/
theorem write_of_unlimited {sink : Sink} (h : sink.room = none) (bytes : Bytes) :
    sink.write bytes = (sink.push bytes, none) := by
  rw [write, h]

/-- What fits is written whole, and takes its length from the room. -/
theorem write_of_fits {sink : Sink} {room : Nat} {bytes : Bytes} (h : sink.room = some room)
    (hfits : bytes.length ≤ room) :
    sink.write bytes = ({ sink.push bytes with room := some (room - bytes.length) }, none) := by
  rw [write, h]
  exact if_pos hfits

/-- What does not fit fills the sink and fails. -/
theorem write_of_exceeds {sink : Sink} {room : Nat} {bytes : Bytes} (h : sink.room = some room)
    (hexceeds : room < bytes.length) :
    sink.write bytes =
      ({ sink.push (bytes.take room) with room := some 0 }, some sink.failure) := by
  rw [write, h]
  exact if_neg (Nat.not_le.mpr hexceeds)

end Sink

end TreeSketch
