import Scriptlet.Repl.Reader
import Scriptlet.Repl.Report
import Scriptlet.Session.Basic
import Scriptlet.Syntax.Node

/-!
# The interactive loop

Reads lines, answers commands, evaluates submissions and shows what came of
them. A line is answered by a text and a new state, so a whole conversation is
a function of its input. All of the input belongs to the conversation: a submission
that wants to read a line of it waits for ever.
-/

namespace Scriptlet

/-- The state of a conversation. -/
structure Repl where
  session : Session
  /-- The lines gathered for the next submission. -/
  pending : String
  /-- Submissions are shown as syntax trees. -/
  showsTree : Bool
  /-- Submissions are shown as flat programs. -/
  showsProgram : Bool

namespace Repl

/-- What is written in answer to a line, and how the conversation goes on. -/
structure Reply where
  output : String
  /-- What the line submitted; there is nothing if it did not complete a submission. -/
  submission? : Option Submission
  /-- The state for the next line; there is none if the conversation is over. -/
  next? : Option Repl

/-- The start of a conversation. -/
def start (draws : Draws) : Repl := ⟨.start draws, "", false, false⟩

/-- What is written before a line is read. -/
def prompt (r : Repl) : String := if r.pending.isEmpty then "» " else "· "

/-- A text as a line of output. -/
def line (text : String) : String := text ++ "\n"

/-- Answers a command, given without its number sign. -/
def command (r : Repl) : String → Reply
  | "showTree" =>
    let shows := !r.showsTree
    ⟨line (if shows then "Showing parse trees." else "Not showing parse trees."), none,
      some { r with showsTree := shows }⟩
  | "showProgram" =>
    let shows := !r.showsProgram
    ⟨line (if shows then "Showing bound tree." else "Not showing bound tree."), none,
      some { r with showsProgram := shows }⟩
  | "cls" => ⟨"\x1B[2J\x1B[1;1H", none, some r⟩
  | "reset" => ⟨line "Session reset.", none, some { r with session := r.session.reset }⟩
  | "exit" => ⟨"", none, none⟩
  | other => ⟨line s!"Invalid command #{other}.", none, some r⟩

/-- What is shown of a submission before it is evaluated. -/
def preview (r : Repl) (s : Submission) : String :=
  (if r.showsTree then s.source.render else "") ++
    if r.showsProgram then s.program.render else ""

/-- What is shown of the outcome of a submission. -/
def verdict (s : Submission) : Outcome → String
  | .finished .void => ""
  | .finished value => line value.display
  | .rejected diagnostics =>
    String.join ((diagnostics.flatMap (report s.source.text.toList)).map line)
  | .failed fault => line s!"Internal error: {fault.message}"

/-- What is held out to a submission in place of the input. The conversation does not let go
of the input as long as it lasts, so a submission that takes this line waits for ever. -/
def heldInputs : List String := [""]

/-- Answers a submission, which may take a number of steps at most. -/
def submit (r : Repl) (steps : Nat) (source : Syntax.Source) : Option Reply :=
  (r.session.submit steps heldInputs source).bind fun (submission, evaluated, session) =>
    if evaluated.inputsLeft = heldInputs then
      some ⟨r.preview submission ++ String.join (evaluated.printed.map line) ++
          verdict submission evaluated.outcome,
        some submission, some { r with session, pending := "" }⟩
    else
      none

/-- Answers a line. There is no answer if a submission is still running after
the given number of steps or waits for a line. -/
def answer (r : Repl) (steps : Nat) (input : String) : Option Reply :=
  match read r.pending input with
  | .ignored => some ⟨"", none, some r⟩
  | .command name => some (r.command name)
  | .pending text => some ⟨"", none, some { r with pending := text }⟩
  | .submission source => r.submit steps source

/-- A line with the answer to it. -/
structure Exchange where
  /-- The state in which the line is read. -/
  asked : Repl
  input : String
  reply : Reply

/-- What becomes of the lines that a conversation is given. -/
structure Conversation where
  /-- The lines that are answered, in their order. -/
  exchanges : List Exchange
  /-- The state behind them; there is none if the conversation is over. -/
  last? : Option Repl
  /-- The lines that are not answered, since the conversation is over or a submission does
  not come to its end. -/
  unanswered : List String

/-- Answers lines as long as there are answers. -/
def converse (r : Repl) (steps : Nat) : List String → Conversation
  | [] => ⟨[], some r, []⟩
  | input :: inputs =>
    match r.answer steps input with
    | none => ⟨[], some r, input :: inputs⟩
    | some reply =>
      match reply.next? with
      | none => ⟨[⟨r, input, reply⟩], none, inputs⟩
      | some next =>
        let later := next.converse steps inputs
        { later with exchanges := ⟨r, input, reply⟩ :: later.exchanges }

namespace Conversation

/-- A line has no answer, though the conversation is not over. -/
def isStuck (c : Conversation) : Bool := c.last?.isSome && !c.unanswered.isEmpty

/-- All that is written, prompts included. -/
def written (c : Conversation) : String :=
  String.join (c.exchanges.map fun e => e.asked.prompt ++ e.reply.output) ++
    (c.last?.map prompt).getD ""

/-- What is submitted, in its order. -/
def submissions (c : Conversation) : List Submission :=
  c.exchanges.filterMap fun e => e.reply.submission?

/-- The text that is gathered behind the last answer and not submitted. -/
def pending (c : Conversation) : String := (c.last?.map Repl.pending).getD ""

end Conversation

/-- All that is written in a conversation with the given lines. There is nothing to be told
if a submission does not come to its end. -/
def transcript (r : Repl) (steps : Nat) (inputs : List String) : Option String :=
  let c := r.converse steps inputs
  if c.isStuck then none else some c.written

end Repl

end Scriptlet
