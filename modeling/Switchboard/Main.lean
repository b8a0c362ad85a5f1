import Switchboard.Console.Run

/-!
The program: it hands its arguments and, where they ask for it, its standard input to
`Console.reply`, says whether its output goes to a terminal, and carries the reply out.
-/

open Switchboard

def main (arguments : List String) : IO UInt32 := do
  let terminal ← (← IO.getStdout).isTty
  let input ←
    if Console.readsInput arguments terminal then (← IO.getStdin).readToEnd else pure ""
  let reply := Console.reply arguments input terminal
  IO.print reply.out
  IO.eprint reply.err
  return UInt32.ofNat reply.exit
