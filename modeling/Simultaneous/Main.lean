import Simultaneous.CommandLine

/-!
The program: reads the arguments or the standard input, and prints the answer. Its entry point is in
no other module, so that a program with one of its own can use the command line as well.
-/

open Simultaneous

def main (args : List String) : IO UInt32 := do
  let input ← if args.isEmpty then (← IO.getStdin).readBinToEnd else pure ByteArray.empty
  let outcome := CommandLine.run args input
  IO.print outcome.output
  return outcome.code
