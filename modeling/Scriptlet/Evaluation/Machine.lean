import Scriptlet.Evaluation.Expr
import Scriptlet.Program.Lowering

/-!
# Running flat programs

A machine walks through a flat program one statement at a time. It stops behind
the last statement, with the value of the last declaration or expression it
ran, or at a fault. A program need not stop, so a run is given a number of steps
and may still be under way when they are used up.
-/

namespace Scriptlet

/-- A machine between two steps. -/
structure Machine where
  /-- Index of the next statement. -/
  index : Nat
  /-- Value of the last declaration or expression. -/
  last : Value
  memory : Memory

/-- How far a run has come. -/
inductive Progress where
  /-- The run is over, with a value or a fault. -/
  | halted (result : Except Fault Value) (memory : Memory)
  /-- The run goes on from here. -/
  | running (machine : Machine)

namespace Machine

/-- The machine at the first statement. -/
def start (memory : Memory) : Machine := ⟨0, .void, memory⟩

/-- The place behind a label. -/
def goto (p : Program) (target : Label) : Except Fault Nat :=
  match p.placement? target with
  | some i => .ok (i + 1)
  | none => .error (.unresolvedLabel target.name)

/-- What one statement does: the index of the next statement and the value that
is the last one behind it. -/
def execute (p : Program) (index : Nat) (last : Value) : Bound.Stmt → Evaluating (Nat × Value)
  | .declaration target initializer => do
    let value ← initializer.evaluate
    Evaluating.write target value
    return (index + 1, value)
  | .expression inner => do
    let value ← inner.evaluate
    return (index + 1, value)
  | .goto target => do return (← Evaluating.lift (goto p target), last)
  | .gotoIf target condition expected => do
    let value ← condition.evaluate
    if (← Evaluating.lift (value.expectBool "condition")) = expected then
      return (← Evaluating.lift (goto p target), last)
    else
      return (index + 1, last)
  | .label _ => return (index + 1, last)
  | s => Evaluating.fail (.unloweredStatement s.name)

/-- One step: the run is over behind the last statement, and otherwise the
statement at hand is run. -/
def step (p : Program) (m : Machine) : Progress :=
  match p[m.index]? with
  | none => .halted (.ok m.last) m.memory
  | some s =>
    match (execute p m.index m.last s).on m.memory with
    | (.ok (index, last), memory) => .running ⟨index, last, memory⟩
    | (.error fault, memory) => .halted (.error fault) memory

/-- A number of steps, or fewer if the run is over before. -/
def advance (p : Program) : (steps : Nat) → Machine → Progress
  | 0, m => .running m
  | steps + 1, m =>
    match m.step p with
    | .running next => next.advance p steps
    | halted => halted

end Machine

/-- Runs a program on a memory for a number of steps. -/
def Program.run (p : Program) (steps : Nat) (memory : Memory) : Progress :=
  (Machine.start memory).advance p steps

/-- More steps do not change a run that is over. -/
theorem Machine.advance_add {p : Program} {steps : Nat} {m : Machine}
    {result : Except Fault Value} {memory : Memory}
    (h : m.advance p steps = .halted result memory) (more : Nat) :
    m.advance p (steps + more) = .halted result memory := by
  induction steps generalizing m with
  | zero => simp [advance] at h
  | succ steps ih =>
    rw [Nat.succ_add]
    rw [advance] at h ⊢
    cases hs : m.step p with
    | running next => simp only [hs] at h ⊢; exact ih h
    | halted r mem => simpa only [hs] using h

end Scriptlet
