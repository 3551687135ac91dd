import Scriptlet.Text.Quoted
import Scriptlet.Value

/-!
# Faults

What can stop a running program. Only a division can fail in a program that
was accepted; all other faults show that something runs that should not.
-/

namespace Scriptlet

/-- A value as it is shown in a fault: its sort, then its content. -/
def Value.describe : Value → String
  | .int value => s!"Int({value.toInt})"
  | .bool value => s!"Bool({value})"
  | .string value => s!"String({Text.quoted value})"
  | .void => "Void"

/-- What stops a running program. -/
inductive Fault where
  /-- A jump goes to a label that has no place. -/
  | unresolvedLabel (name : String)
  /-- A variable is read that has no value. -/
  | missingVariable (name : String)
  /-- An operator or a function got a value that it does not take. -/
  | invalidOperand (operator : String) (operand : Value)
  /-- An expression without meaning is evaluated. -/
  | meaninglessExpression
  /-- A structured statement is met among the jumps. -/
  | unloweredStatement (name : String)
  /-- A function is called that is none of the language. -/
  | unknownFunction (name : String)
  | divisionByZero
  /-- The result of a division is no integer of the language. -/
  | overflow (operator : String)
  deriving DecidableEq, Repr

/-- The sentence that tells a reader about a fault. -/
def Fault.message : Fault → String
  | .unresolvedLabel name => s!"jump to unresolved label {name}"
  | .missingVariable name => s!"variable {Text.quoted name} has no value in the variable store"
  | .invalidOperand operator operand =>
    s!"operator {operator} cannot be applied to {operand.describe}"
  | .meaninglessExpression => "operator evaluate cannot be applied to an error expression"
  | .unloweredStatement name => s!"{name} statement reached the evaluator without being lowered"
  | .unknownFunction name => s!"function {Text.quoted name} has no native implementation"
  | .divisionByZero => "division by zero"
  | .overflow operator => s!"integer overflow in {operator}"

end Scriptlet
