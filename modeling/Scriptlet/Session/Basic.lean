import Scriptlet.Session.Submission

/-!
# Sessions

A session remembers the chain of submissions that the next one continues, the
values of all variables, and which identities and draws are used up. The chain
grows only by submissions that ran to their end, unless it is set otherwise.
-/

namespace Scriptlet

/-- The state between two submissions. -/
structure Session where
  /-- The submissions that the next one continues, newest first. -/
  chain : List Submission
  store : Store
  /-- Identity of the next variable; no two submissions share variables. -/
  nextId : Nat
  draws : Draws

/-- What evaluating a submission in a session gave. -/
structure Evaluated where
  outcome : Outcome
  /-- The lines printed. -/
  printed : List String
  /-- The input lines not read. -/
  inputsLeft : List String
  deriving Repr

namespace Session

/-- The session before its first submission. -/
def start (draws : Draws) : Session := ⟨[], .empty, 0, draws⟩

/-- Resolves a source text as a continuation of the chain. -/
def compile (s : Session) (source : Syntax.Source) : Submission × Session :=
  let (submission, nextId) := Submission.compile s.chain s.nextId source
  (submission, { s with nextId })

/-- Evaluates a submission on the store; the chain stays. -/
def evaluate (s : Session) (steps : Nat) (inputs : List String) (submission : Submission) :
    Option (Evaluated × Session) :=
  (submission.evaluate steps (.start s.store inputs s.draws)).map fun (outcome, memory) =>
    (⟨outcome, memory.console.printed.toList, memory.console.inputs⟩,
      { s with store := memory.store, draws := memory.draws })

/-- Lets the next submission continue a submission, if that ran to its end. -/
def extend (s : Session) (submission : Submission) : Outcome → Session
  | .finished _ => { s with chain := submission :: s.chain }
  | _ => s

/-- Compiles a source text, evaluates it and extends the chain by it. -/
def submit (s : Session) (steps : Nat) (inputs : List String) (source : Syntax.Source) :
    Option (Submission × Evaluated × Session) :=
  let (submission, compiled) := s.compile source
  (compiled.evaluate steps inputs submission).map fun (evaluated, after) =>
    (submission, evaluated, after.extend submission evaluated.outcome)

/-- Forgets all values. -/
def clearStore (s : Session) : Session := { s with store := .empty }

/-- Lets the next submission continue another chain. -/
def rewind (s : Session) (chain : List Submission) : Session := { s with chain }

/-- Forgets all values and the chain. -/
def reset (s : Session) : Session := { s with store := .empty, chain := [] }

end Session

end Scriptlet
