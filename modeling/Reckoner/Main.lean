import Reckoner.CommandLine

/-!
# The program

Computes the expression on the command line and prints its value.
-/

/-- Prints the report on the arguments and ends with its exit code. -/
def main (arguments : List String) : IO UInt32 := do
  let report := Reckoner.CommandLine.reportOn arguments
  (← IO.getStdout).putStr report.output
  (← IO.getStderr).putStr report.complaint
  return UInt32.ofNat report.code
