import Scriptlet.Evaluation.Machine

/-!
# Properties that evaluating keeps

Expressions and the statements of flat programs are evaluated by a few steps, put one
behind the other. So a property of the steps that sequences keep is one of whatever is
evaluated.
-/

namespace Scriptlet

namespace Evaluating

/-- A property of computations that all steps of evaluating have and that sequences keep. -/
structure Closed (P : (α : Type) → Evaluating α → Prop) : Prop where
  lift : ∀ {α : Type} (result : Except Fault α), P α (Evaluating.lift result)
  bind : ∀ {α β : Type} {m : Evaluating α} {f : α → Evaluating β}, P α m → (∀ a, P β (f a)) →
    P β (m >>= f)
  read : ∀ v, P Value (Evaluating.read v)
  write : ∀ v value, P Unit (Evaluating.write v value)
  print : ∀ text, P Unit (Evaluating.print text)
  readLine : P String Evaluating.readLine
  random : ∀ bound, P Int32 (Evaluating.random bound)

variable {P : (α : Type) → Evaluating α → Prop} {α : Type}

/-- A bare result is one that is taken over. -/
theorem Closed.pure (closed : Closed P) (a : α) : P α (Pure.pure a) := closed.lift (.ok a)

/-- A fault is a result that is taken over. -/
theorem Closed.fail (closed : Closed P) (fault : Fault) : P α (Evaluating.fail fault) :=
  closed.lift (.error fault)

/-- A call is made of the steps. -/
theorem Closed.call (closed : Closed P) (f : Function) (arguments : List Value) :
    P Value (Evaluating.call f arguments) := by
  unfold Evaluating.call
  split
  · split
    · exact closed.bind (closed.print _) fun _ => closed.pure _
    · exact closed.fail _
  · split
    · exact closed.bind closed.readLine fun _ => closed.pure _
    · split
      · split
        · exact closed.bind (closed.random _) fun _ => closed.pure _
        · exact closed.fail _
      · exact closed.fail _

end Evaluating

namespace Bound

open Evaluating

variable {P : (α : Type) → Evaluating α → Prop}

mutual

/-- An expression is evaluated by the steps. -/
theorem Expr.closed_evaluate (closed : Closed P) (e : Expr) : P Value e.evaluate := by
  cases e with
  | literal value => exact closed.pure value
  | name target => exact closed.read target
  | assignment target value =>
    have part := value.closed_evaluate closed
    exact closed.bind part fun result => closed.bind (closed.write target result) fun _ =>
      closed.pure result
  | unary operator operand =>
    have part := operand.closed_evaluate closed
    exact closed.bind part fun value => closed.lift _
  | binary left operator right =>
    have part := left.closed_evaluate closed
    have part' := right.closed_evaluate closed
    rw [Expr.evaluate]
    refine closed.bind part fun leftValue => ?_
    cases operator.decisive? with
    | none => exact closed.bind part' fun rightValue => closed.lift _
    | some decisive =>
      refine closed.bind (closed.lift _) fun truth => ?_
      split
      · exact closed.pure leftValue
      · exact closed.bind part' fun rightValue => closed.bind (closed.lift _) fun truth' =>
          closed.pure _
  | call function arguments =>
    have parts := Expr.closed_evaluateAll closed arguments
    exact closed.bind parts fun values => closed.call function values
  | error => exact closed.fail _

/-- A row of expressions is evaluated by the steps. -/
theorem Expr.closed_evaluateAll (closed : Closed P) (es : List Expr) :
    P (List Value) (Expr.evaluateAll es) := by
  cases es with
  | nil => exact closed.pure []
  | cons e es =>
    have first := e.closed_evaluate closed
    have others := Expr.closed_evaluateAll closed es
    exact closed.bind first fun value => closed.bind others fun values => closed.pure _

end

end Bound

/-- A statement of a flat program is run by the steps. -/
theorem Machine.closed_execute {P : (α : Type) → Evaluating α → Prop}
    (closed : Evaluating.Closed P) (p : Program) (index : Nat) (last : Value) (s : Bound.Stmt) :
    P (Nat × Value) (execute p index last s) := by
  cases s with
  | declaration target initializer =>
    exact closed.bind (initializer.closed_evaluate closed) fun value =>
      closed.bind (closed.write target value) fun _ => closed.pure _
  | expression inner =>
    exact closed.bind (inner.closed_evaluate closed) fun value => closed.pure _
  | goto target => exact closed.bind (closed.lift _) fun index => closed.pure _
  | gotoIf target condition expected =>
    refine closed.bind (condition.closed_evaluate closed) fun value =>
      closed.bind (closed.lift _) fun outcome => ?_
    split
    · exact closed.bind (closed.lift _) fun index => closed.pure _
    · exact closed.pure _
  | label => exact closed.pure _
  | block | ifThen | ifElse | whileLoop | forLoop => exact closed.fail _

end Scriptlet
