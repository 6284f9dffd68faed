import TokenRing.CommandLine.Report

/-!
# The program

Reads the file that the arguments name, prints the answer on standard output, and failures and
events on standard error.
-/

namespace TokenRing.Program

def readContent (path : String) : IO (Option ByteArray) := do
  try
    return some (← IO.FS.readBinFile path)
  catch _ =>
    return none

def usageText : String :=
  "Usage: tokenring --topology FILE [--partitioner murmur3|random|byte-ordered] [--verbose]\n" ++
    "    ring | keyspaces | replicas KEYSPACE [--json] | route KEYSPACE KEY"

def explain : Usage → String × UInt32
  | .help => (usageText, 0)
  | .version => ("tokenring", 0)
  | .nothingAsked => (usageText, 2)
  | .missingCommand => ("error: a command is required\n\n" ++ usageText, 2)
  | .unknownCommand => ("error: there is no such command\n\n" ++ usageText, 2)
  | .missingArgument => ("error: a required argument was not given\n\n" ++ usageText, 2)
  | .unknownArgument => ("error: there is no such argument\n\n" ++ usageText, 2)
  | .invalidValue => ("error: an option has no valid value\n\n" ++ usageText, 2)
  | .unneededValue => ("error: a flag takes no value\n\n" ++ usageText, 2)
  | .repeated => ("error: an option was given twice\n\n" ++ usageText, 2)

def carryOut (invocation : Invocation) : IO UInt32 := do
  match invocation.answer (← readContent invocation.topology) with
  | .ok answer =>
    for event in answer.events do
      if invocation.verbose || event.isWarning then IO.eprintln event.line
    IO.print answer.output
    return 0
  | .error failure =>
    IO.eprintln s!"Error: {failure.message}"
    if let some cause := failure.cause? then
      IO.eprintln s!"\nCaused by:\n    {cause.message}"
    return 1

end TokenRing.Program

open TokenRing in
def main (arguments : List String) : IO UInt32 := do
  match Invocation.ofArguments arguments with
  | .ok invocation => Program.carryOut invocation
  | .error usage =>
    let (text, code) := Program.explain usage
    if code = 0 then IO.println text else IO.eprintln text
    return code
