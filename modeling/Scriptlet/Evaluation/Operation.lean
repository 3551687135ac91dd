import Scriptlet.Evaluation.Fault
import Scriptlet.Operator

/-!
# What operators compute

Integers wrap around at 32 bits, except that a division whose result does not
fit is a fault. An operand of a type that the operation does not take is a
fault too, and the left operand is looked at first.
-/

namespace Scriptlet

/-- Requires a truth value as an operand. -/
def Value.expectBool (operator : String) : Value → Except Fault Bool
  | .bool value => .ok value
  | other => .error (.invalidOperand operator other)

/-- Requires an integer as an operand. -/
def Value.expectInt (operator : String) : Value → Except Fault Int32
  | .int value => .ok value
  | other => .error (.invalidOperand operator other)

/-- The result of an operator in front of an operand. -/
def UnaryOperator.apply (o : UnaryOperator) (operand : Value) : Except Fault Value :=
  match o.operation, operand with
  | .identity, .int n => .ok (.int n)
  | .negation, .int n => .ok (.int (-n))
  | .logicalNegation, .bool b => .ok (.bool !b)
  | .onesComplement, .int n => .ok (.int (~~~n))
  | _, _ => .error (.invalidOperand o.display operand)

namespace BinaryOperator

/-- The value of the left operand that decides the result without the right
one, for the operations that can be decided so. -/
def decisive? (o : BinaryOperator) : Option Bool :=
  match o.operation with
  | .logicalAnd => some false
  | .logicalOr => some true
  | _ => none

/-- An operation on two integers. -/
def onInts (o : BinaryOperator) (f : Int32 → Int32 → Value) (left right : Value) :
    Except Fault Value := do
  let a ← left.expectInt o.display
  let b ← right.expectInt o.display
  return f a b

/-- An operation on two truth values. -/
def onBools (o : BinaryOperator) (f : Bool → Bool → Bool) (left right : Value) :
    Except Fault Value := do
  let a ← left.expectBool o.display
  let b ← right.expectBool o.display
  return .bool (f a b)

/-- Division toward zero. -/
def divide (o : BinaryOperator) (left right : Value) : Except Fault Value := do
  let a ← left.expectInt o.display
  let b ← right.expectInt o.display
  if b = 0 then throw .divisionByZero
  else if a = Int32.minValue ∧ b = -1 then throw (.overflow o.display)
  else return .int (a / b)

/-- The result of an operator between two operands. -/
def apply (o : BinaryOperator) (left right : Value) : Except Fault Value :=
  match o.operation with
  | .equals => .ok (.bool (left == right))
  | .notEquals => .ok (.bool (left != right))
  | .logicalAnd => o.onBools (· && ·) left right
  | .logicalOr => o.onBools (· || ·) left right
  | .bitwiseAnd =>
    if o.result = .bool then o.onBools (· && ·) left right
    else o.onInts (fun a b => .int (a &&& b)) left right
  | .bitwiseOr =>
    if o.result = .bool then o.onBools (· || ·) left right
    else o.onInts (fun a b => .int (a ||| b)) left right
  | .bitwiseXor =>
    if o.result = .bool then o.onBools Bool.xor left right
    else o.onInts (fun a b => .int (a ^^^ b)) left right
  | .addition => o.onInts (fun a b => .int (a + b)) left right
  | .subtraction => o.onInts (fun a b => .int (a - b)) left right
  | .multiplication => o.onInts (fun a b => .int (a * b)) left right
  | .division => o.divide left right
  | .less => o.onInts (fun a b => .bool (a < b)) left right
  | .lessOrEqual => o.onInts (fun a b => .bool (a ≤ b)) left right
  | .greater => o.onInts (fun a b => .bool (b < a)) left right
  | .greaterOrEqual => o.onInts (fun a b => .bool (b ≤ a)) left right

end BinaryOperator

/-- On an operand of the type it is meant for, a row of the table computes a
value of its result type. -/
theorem UnaryOperator.apply_of_mem {o : UnaryOperator} (h : o ∈ UnaryOperator.table) {v : Value}
    (hv : v.type = o.operand) : ∃ w, o.apply v = .ok w ∧ w.type = o.result := by
  simp only [UnaryOperator.table, List.mem_cons, List.not_mem_nil, or_false] at h
  rcases h with rfl | rfl | rfl | rfl <;> cases v <;>
    simp_all [UnaryOperator.apply, Value.type]

end Scriptlet
