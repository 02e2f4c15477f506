import Simultaneous.Solve

/-!
The command line: the equations are the arguments, one or more to a line, or else the standard
input.
-/

namespace Simultaneous.CommandLine

structure Outcome where
  output : String
  code : UInt32

/-- What a run writes and returns. The input counts only if there are no arguments, and has to be
UTF-8 then. -/
def run (args : List String) (input : ByteArray) : Outcome :=
  let text? := if args.isEmpty then String.fromUTF8? input else some ("\n".intercalate args)
  match text? with
  | some text => ⟨(answer text).value ++ "\n", 0⟩
  | none => ⟨"", 1⟩

end Simultaneous.CommandLine
