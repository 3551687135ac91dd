import Scriptlet.Repl.Basic
import Scriptlet.Text.Stream

/-!
# The command line

Reads lines from standard input and answers each on standard output, until a
command, the end of the input or a line that is no text ends the conversation.
-/

namespace Scriptlet

/-- Number of steps that a submission may take; no real one takes as many. -/
def stepLimit : Nat := Nat.pow 2 62

/-- Waits for ever. -/
partial def wait : IO Unit := do
  IO.sleep 1000
  wait

/-- Writes the prompt, reads a line, answers it, and so on. -/
partial def converse (input output : IO.FS.Stream) (r : Repl) : IO Unit := do
  output.putStr r.prompt
  output.flush
  let bytes ← readLineBytes input ByteArray.empty
  match Text.commandLines bytes with
  | [] => return
  | line :: _ =>
    match r.answer stepLimit line with
    | none => wait
    | some reply =>
      output.putStr reply.output
      output.flush
      if let some next := reply.next? then converse input output next
where
  /-- The bytes up to and with the next line feed. -/
  readLineBytes (input : IO.FS.Stream) (read : ByteArray) : IO ByteArray := do
    let chunk ← input.read 1
    if chunk.isEmpty then return read
    else if chunk[0]! = 10 then return read ++ chunk
    else readLineBytes input (read ++ chunk)

end Scriptlet

/-- Starts a conversation on standard input and output. -/
def main : IO Unit := do
  let seed ← IO.rand 0 (Nat.pow 2 31)
  Scriptlet.converse (← IO.getStdin) (← IO.getStdout) (.start (.ofSeed seed))
