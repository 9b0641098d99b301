import ValueGrammar.CommandLine.Program

/-!
# `ValueGrammar.Main` — the program

Reads the files that the options name and the input, runs the program on them, and prints what it
answers.
-/

namespace ValueGrammar.CommandLine

/-- The content of a file, if it can be read. -/
def readFile? (path : String) : IO (Option (List UInt8)) := do
  try
    return some (← IO.FS.readBinFile path).toList
  catch _ =>
    return none

/-- All that is left of an input. -/
partial def readAll (input : IO.FS.Stream) (before : String) : IO String := do
  let line ← input.getLine
  if line.isEmpty then return before else readAll input (before ++ line)

/-- The files that the options name, and the input if they leave something to match. -/
def surroundings (o : Options) : IO Surroundings := do
  let paths := [o.dictionary, o.stylesheet]
  let files ← paths.mapM fun path => return (path, ← readFile? path)
  let busy := o.stylesheet ≠ "" || o.showGrammar || o.value ≠ ""
  let input ← if busy then pure "" else readAll (← IO.getStdin) ""
  return ⟨fun path => (files.lookup path).join, input⟩

end ValueGrammar.CommandLine

open ValueGrammar

/-- Runs the program with the arguments of the process. -/
def main (arguments : List String) : IO UInt32 := do
  let s ← match Options.ofArguments arguments with
    | .ok o => CommandLine.surroundings o
    | .error _ => pure ⟨fun _ => none, ""⟩
  let output := CommandLine.run arguments s
  IO.print output.stdout
  IO.eprint output.stderr
  return output.exit.toUInt32
