import Scriptlet.Bound.Resolve
import Scriptlet.Evaluation.Machine
import Scriptlet.Syntax.Source

/-!
# Submissions

A session is made of submissions, each of which sees the global variables of
those it continues. A submission is resolved in a scope of its own inside the
scopes of the earlier ones, which in turn stand inside the scope of the
functions of the language.
-/

namespace Scriptlet

/-- A source text, resolved behind the submissions that it continues. -/
structure Submission where
  source : Syntax.Source
  statement : Bound.Stmt
  /-- The variables that the submission declares in its global scope. -/
  globals : List Variable
  /-- The problems found while resolving. -/
  resolveDiagnostics : List Diagnostic
  deriving Repr

namespace Submission

/-- The scope tree with the functions of the language in its root. -/
def builtinScopes : ScopeTree :=
  Function.builtins.foldl (fun tree f => (tree.declareFunction 0 f).1) .root

/-- Opens a scope for the global variables of every earlier submission, the
newest innermost. `earlier` lists the submissions from the newest on. -/
def outerScopes : (earlier : List Submission) → ScopeTree × Nat
  | [] => (builtinScopes, 0)
  | newest :: older =>
    let (outer, parent) := outerScopes older
    let (tree, scope) := outer.push parent
    (newest.globals.foldl (fun tree v => (tree.declareVariable scope v).1) tree, scope)

/-- Resolves a source text behind earlier submissions. `nextId` is the identity
of the first variable it may introduce; the number returned is behind the last. -/
def compile (earlier : List Submission) (nextId : Nat) (source : Syntax.Source) :
    Submission × Nat :=
  let (outer, parent) := outerScopes earlier
  let (tree, scope) := outer.push parent
  let resolved := source.script.statement.resolve.run ⟨tree, scope, nextId⟩
  (⟨source, resolved.value, resolved.state.tree.varsIn scope, resolved.diagnostics⟩,
    resolved.state.nextId)

/-- All that is wrong with a submission: first its text, then its meaning. -/
def diagnostics (s : Submission) : List Diagnostic := s.source.diagnostics ++ s.resolveDiagnostics

/-- The flat program of a submission. -/
def program (s : Submission) : Program := s.statement.lower

/-- The global variables in the order of their names. -/
def sortedGlobals (s : Submission) : List Variable :=
  s.globals.mergeSort fun v w => !(decide (w.name < v.name))

/-- Everything visible behind a chain of submissions, listed from the newest on:
the functions of the language, then the global variables of each submission,
oldest first. -/
def symbols (chain : List Submission) : List Symbol :=
  Function.builtins.map .function ++ chain.reverse.flatMap fun s => s.sortedGlobals.map .var

end Submission

/-- What came of evaluating a submission. -/
inductive Outcome where
  /-- It has problems and was not run. -/
  | rejected (diagnostics : List Diagnostic)
  /-- It ran to its end. -/
  | finished (value : Value)
  /-- It ran into a fault. -/
  | failed (fault : Fault)
  deriving DecidableEq, Repr

/-- Evaluates a submission on a memory, for a number of steps at most. A
submission with problems is not run; there is no outcome if the steps do not
suffice. -/
def Submission.evaluate (s : Submission) (steps : Nat) (memory : Memory) :
    Option (Outcome × Memory) :=
  if s.diagnostics.isEmpty then
    match s.program.run steps memory with
    | .halted (.ok value) after => some (.finished value, after)
    | .halted (.error fault) after => some (.failed fault, after)
    | .running _ => none
  else
    some (.rejected s.diagnostics, memory)

end Scriptlet
