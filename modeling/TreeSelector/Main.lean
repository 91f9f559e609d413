import TreeSelector.CommandLine.Command

/-!
# The command line

Reads the file that a command needs, and prints what the command puts out.
-/

open TreeSelector

/-- The text in a file, if it can be read. -/
def contentsOfFile (path : String) : IO (Option String) := do
  try
    return some (← IO.FS.readFile path)
  catch _ => return none

def main (args : List String) : IO UInt32 := do
  let outcome ← CommandLine.run contentsOfFile args
  for line in outcome.output do
    IO.println line
  for complaint in outcome.complaints do
    IO.eprintln complaint
  return outcome.code.toUInt32
