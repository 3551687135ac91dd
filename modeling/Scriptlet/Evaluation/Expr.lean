import Scriptlet.Bound.Tree
import Scriptlet.Evaluation.Memory
import Scriptlet.Evaluation.Operation

/-!
# Evaluating expressions

An expression changes the memory and gives a value or a fault. What it changed
before a fault stays changed. Operands and arguments are evaluated from left to
right; a conjunction or disjunction skips its right operand once the left one
decides.
-/

namespace Scriptlet

/-- A computation on a memory that a fault can stop. -/
def Evaluating (α : Type) : Type := Memory → Except Fault α × Memory

namespace Evaluating

variable {α β : Type}

/-- Runs a computation on a memory. -/
def on (m : Evaluating α) (memory : Memory) : Except Fault α × Memory := m memory

/-- A result that leaves the memory as it is. -/
protected def pure (a : α) : Evaluating α := fun memory => (.ok a, memory)

/-- Runs one computation behind another, unless a fault stops the first. -/
protected def bind (m : Evaluating α) (f : α → Evaluating β) : Evaluating β := fun memory =>
  match m memory with
  | (.ok a, after) => f a after
  | (.error fault, after) => (.error fault, after)

instance : Monad Evaluating where
  pure := Evaluating.pure
  bind := Evaluating.bind

/-- Stops with a fault. -/
def fail (fault : Fault) : Evaluating α := fun memory => (.error fault, memory)

/-- Takes over a result or a fault; the memory stays. -/
def lift (result : Except Fault α) : Evaluating α := fun memory => (result, memory)

/-- The memory. -/
def memory : Evaluating Memory := fun memory => (.ok memory, memory)

/-- Replaces the memory. -/
def setMemory (after : Memory) : Evaluating Unit := fun _ => (.ok (), after)

@[simp] theorem on_pure (a : α) (memory : Memory) :
    (pure a : Evaluating α).on memory = (.ok a, memory) := rfl

/-- A sequence goes on behind a result and stops at a fault. -/
theorem on_bind (m : Evaluating α) (f : α → Evaluating β) (memory : Memory) :
    (m >>= f).on memory =
      match m.on memory with
      | (.ok a, after) => (f a).on after
      | (.error fault, after) => (.error fault, after) := rfl

/-- A sequence behind a result goes on with it. -/
theorem on_bind_of_ok {m : Evaluating α} {before after : Memory} {a : α}
    (h : m.on before = (.ok a, after)) (f : α → Evaluating β) :
    (m >>= f).on before = (f a).on after := by
  rw [on_bind, h]

/-- A fault stops the whole sequence. -/
theorem on_bind_of_error {m : Evaluating α} {before after : Memory} {fault : Fault}
    (h : m.on before = (.error fault, after)) (f : α → Evaluating β) :
    (m >>= f).on before = (.error fault, after) := by
  rw [on_bind, h]

/-- Changing a result changes neither the memory nor a fault. -/
@[simp] theorem on_map (f : α → β) (m : Evaluating α) (memory : Memory) :
    (f <$> m).on memory = ((m.on memory).1.map f, (m.on memory).2) := by
  show Evaluating.bind m (fun a => Evaluating.pure (f a)) memory = _
  unfold Evaluating.bind Evaluating.on
  rcases m memory with ⟨_ | _, _⟩ <;> rfl

@[simp] theorem on_fail (fault : Fault) (memory : Memory) :
    (fail fault : Evaluating α).on memory = (.error fault, memory) := rfl

@[simp] theorem on_lift (result : Except Fault α) (memory : Memory) :
    (lift result).on memory = (result, memory) := rfl

@[simp] theorem on_memory (memory : Memory) : Evaluating.memory.on memory = (.ok memory, memory) :=
  rfl

@[simp] theorem on_setMemory (before after : Memory) :
    (setMemory after).on before = (.ok (), after) := rfl

/-- Sequencing is associative, and a bare result changes nothing. -/
instance : LawfulMonad Evaluating :=
  LawfulMonad.mk' _
    (fun m => by
      funext before
      show Evaluating.bind m _ before = m before
      unfold Evaluating.bind
      rcases m before with ⟨_ | _, _⟩ <;> rfl)
    (fun _ _ => rfl)
    (fun m f g => by
      funext before
      show Evaluating.bind (Evaluating.bind m f) g before =
        Evaluating.bind m (fun a => Evaluating.bind (f a) g) before
      unfold Evaluating.bind
      rcases m before with ⟨_ | _, _⟩ <;> rfl)

/-- The value of a variable. -/
def read (v : Variable) : Evaluating Value := do
  match (← memory).store.get? v with
  | some value => return value
  | none => fail (.missingVariable v.name)

/-- Gives a variable a value. -/
def write (v : Variable) (value : Value) : Evaluating Unit := do
  let before ← memory
  setMemory { before with store := before.store.insert v value }

/-- Prints a line. -/
def print (text : String) : Evaluating Unit := do
  let before ← memory
  setMemory { before with console := before.console.print text }

/-- Reads a line. -/
def readLine : Evaluating String := do
  let before ← memory
  let (line, console) := before.console.read
  setMemory { before with console }
  return line

/-- Draws an integer from zero up to, but not including, a bound; zero if there
is none. -/
def random (bound : Int32) : Evaluating Int32 := do
  if bound ≤ 0 then
    return 0
  else
    let before ← memory
    let (drawn, draws) := before.draws.below bound.toInt.toNat
    setMemory { before with draws }
    return Int32.ofNat drawn

/-- Calls a function of the language. -/
def call (f : Function) (arguments : List Value) : Evaluating Value :=
  if f = .print then
    match arguments with
    | .string text :: _ => do
      print text
      return .void
    | _ => fail (.invalidOperand "print" (arguments.headD .void))
  else if f = .input then do
    return .string (← readLine)
  else if f = .rnd then
    match arguments with
    | .int bound :: _ => do return .int (← random bound)
    | _ => fail (.invalidOperand "rnd" (arguments.headD .void))
  else
    fail (.unknownFunction f.name)

end Evaluating

namespace Bound

open Evaluating

mutual

/-- The value of an expression. -/
def Expr.evaluate : Expr → Evaluating Value
  | .literal value => return value
  | .name target => read target
  | .assignment target value => do
    let result ← value.evaluate
    write target result
    return result
  | .unary operator operand => do
    let value ← operand.evaluate
    lift (operator.apply value)
  | .binary left operator right => do
    let leftValue ← left.evaluate
    match operator.decisive? with
    | some decisive =>
      if (← lift (leftValue.expectBool operator.display)) = decisive then
        return leftValue
      else
        let rightValue ← right.evaluate
        return .bool (← lift (rightValue.expectBool operator.display))
    | none =>
      let rightValue ← right.evaluate
      lift (operator.apply leftValue rightValue)
  | .call function arguments => do
    let values ← Expr.evaluateAll arguments
    Evaluating.call function values
  | .error => fail .meaninglessExpression

/-- The values of a row of expressions. -/
def Expr.evaluateAll : List Expr → Evaluating (List Value)
  | [] => return []
  | e :: es => do
    let value ← e.evaluate
    let values ← Expr.evaluateAll es
    return value :: values

end

end Bound

end Scriptlet
