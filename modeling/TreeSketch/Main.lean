import TreeSketch.Surroundings

/-! # The command line

    The arguments are the program's own; what is around it is read from
    the standard input, in the lines that `TreeSketch.Surroundings`
    describes. -/

namespace TreeSketch

/-- Prints an outcome on the two streams. -/
def Outcome.print (outcome : Outcome) : IO UInt32 := do
  let stdout ← IO.getStdout
  stdout.write ⟨outcome.stdout.toArray⟩
  stdout.flush
  let stderr ← IO.getStderr
  stderr.write ⟨outcome.stderr.toArray⟩
  stderr.flush
  return outcome.code.toUInt32

end TreeSketch

open TreeSketch in
/-- Runs the program on its arguments, in the surroundings that the standard
    input describes. -/
def main (args : List String) : IO UInt32 := do
  let input ← (← IO.getStdin).readBinToEnd
  let now ← IO.monoMsNow
  match Surroundings.ofText? (toString now) input.toList with
  | some around => (Program.run around (args.map Text.encode)).print
  | none =>
    IO.eprintln "the surroundings cannot be read"
    return 3
