/-
  Peg.Main

  The calculator as a program. Lines of input are answered as they come.
-/
import Peg.Calculator.CommandLine

namespace Peg.CommandLine

/-- The bytes of the next line, its terminator included; `line` holds those before the cursor,
    latest first. -/
partial def nextLine (input : IO.FS.Stream) (line : List UInt8) : IO (List UInt8) := do
  match (← input.read 1).toList with
  | [] => return line.reverse
  | b :: _ => if b = 10 then return (b :: line).reverse else nextLine input (b :: line)

/-- Write a reply to both outputs. -/
def put (reply : Reply) : IO Unit := do
  (← IO.getStdout).putStr reply.output
  (← IO.getStdout).flush
  (← IO.getStderr).putStr reply.errors
  (← IO.getStderr).flush

/-- Answer line by line; the result tells whether any line failed. -/
partial def answerInput (o : Options) (isTerminal : Bool) (input : IO.FS.Stream)
    (failed : Bool) : IO Bool := do
  let line ← nextLine input []
  if line.isEmpty then return failed
  match o.answerLine isTerminal line with
  | .ok reply =>
    put reply
    answerInput o isTerminal input (failed || reply.failed)
  | .error reply =>
    put reply
    return true

end Peg.CommandLine

/-- Help, a refusal and expressions among the arguments need no input; otherwise the lines of the
    input are answered. -/
def main (args : List String) : IO UInt32 := do
  let isTerminal ← (← IO.getStderr).isTty
  match (Peg.CommandLine.Request.ofArguments args {}).settle isTerminal with
  | .ok t =>
    Peg.CommandLine.put { output := t.output, errors := t.errors }
    return t.status.toUInt32
  | .error o =>
    return if ← Peg.CommandLine.answerInput o isTerminal (← IO.getStdin) false then 1 else 0
