import Scriptlet.Token.Kind
import Scriptlet.Value

/-!
# Operators

Which operators there are for operands of which types. The spelling alone does
not decide what an operator does: the two tables give, for a spelling and the
types of its operands, the one operation it stands for and the type of its
result.
-/

namespace Scriptlet

/-- What an operator in front of an operand does. -/
inductive UnaryOperation where
  | identity
  | negation
  | logicalNegation
  | onesComplement
  deriving DecidableEq, Repr, Inhabited

/-- What an operator between two operands does. -/
inductive BinaryOperation where
  | addition
  | subtraction
  | multiplication
  | division
  | logicalAnd
  | logicalOr
  | bitwiseAnd
  | bitwiseOr
  | bitwiseXor
  | equals
  | notEquals
  | less
  | lessOrEqual
  | greater
  | greaterOrEqual
  deriving DecidableEq, Repr, Inhabited

/-- The name of an operation in listings. -/
def UnaryOperation.name : UnaryOperation → String
  | .identity => "Identity"
  | .negation => "Negation"
  | .logicalNegation => "LogicalNegation"
  | .onesComplement => "OnesComplement"

/-- The name of an operation in listings. -/
def BinaryOperation.name : BinaryOperation → String
  | .addition => "Addition"
  | .subtraction => "Subtraction"
  | .multiplication => "Multiplication"
  | .division => "Division"
  | .logicalAnd => "LogicalAnd"
  | .logicalOr => "LogicalOr"
  | .bitwiseAnd => "BitwiseAnd"
  | .bitwiseOr => "BitwiseOr"
  | .bitwiseXor => "BitwiseXor"
  | .equals => "Equals"
  | .notEquals => "NotEquals"
  | .less => "Less"
  | .lessOrEqual => "LessOrEqual"
  | .greater => "Greater"
  | .greaterOrEqual => "GreaterOrEqual"

/-- All operations on one operand. -/
def UnaryOperation.all : List UnaryOperation :=
  [.identity, .negation, .logicalNegation, .onesComplement]

/-- All operations on two operands. -/
def BinaryOperation.all : List BinaryOperation :=
  [.addition, .subtraction, .multiplication, .division, .logicalAnd, .logicalOr, .bitwiseAnd,
   .bitwiseOr, .bitwiseXor, .equals, .notEquals, .less, .lessOrEqual, .greater, .greaterOrEqual]

/-- An operator in front of an operand, resolved to its operation. -/
structure UnaryOperator where
  token : Kind
  operation : UnaryOperation
  operand : Ty
  result : Ty
  deriving DecidableEq, Repr, Inhabited

/-- An operator between two operands, resolved to its operation. -/
structure BinaryOperator where
  token : Kind
  operation : BinaryOperation
  left : Ty
  right : Ty
  /-- Also tells the bitwise operations on truth values from those on integers. -/
  result : Ty
  deriving DecidableEq, Repr, Inhabited

namespace UnaryOperator

/-- All operators in front of an operand. -/
def table : List UnaryOperator :=
  [⟨.not, .logicalNegation, .bool, .bool⟩,
   ⟨.plus, .identity, .int, .int⟩,
   ⟨.dash, .negation, .int, .int⟩,
   ⟨.tilde, .onesComplement, .int, .int⟩]

/-- The operator of a spelling for an operand type. -/
def find? (token : Kind) (operand : Ty) : Option UnaryOperator :=
  table.find? fun o => o.token == token && o.operand == operand

/-- The spelling of an operator. -/
def display (o : UnaryOperator) : String := o.token.fixedText?.getD "?"

/-- What is found is a row of the table and fits what was asked for. -/
theorem find?_eq_some {token : Kind} {operand : Ty} {o : UnaryOperator}
    (h : find? token operand = some o) : o ∈ table ∧ o.token = token ∧ o.operand = operand := by
  have fits := List.find?_some h
  simp only [Bool.and_eq_true, beq_iff_eq] at fits
  exact ⟨List.mem_of_find?_eq_some h, fits⟩

end UnaryOperator

namespace BinaryOperator

/-- All operators between two operands: those on integers, on truth values and
on texts. -/
def table : List BinaryOperator :=
  [⟨.plus, .addition, .int, .int, .int⟩,
   ⟨.dash, .subtraction, .int, .int, .int⟩,
   ⟨.star, .multiplication, .int, .int, .int⟩,
   ⟨.slash, .division, .int, .int, .int⟩,
   ⟨.ampersand, .bitwiseAnd, .int, .int, .int⟩,
   ⟨.pipe, .bitwiseOr, .int, .int, .int⟩,
   ⟨.hat, .bitwiseXor, .int, .int, .int⟩,
   ⟨.equals, .equals, .int, .int, .bool⟩,
   ⟨.notEquals, .notEquals, .int, .int, .bool⟩,
   ⟨.less, .less, .int, .int, .bool⟩,
   ⟨.lessEquals, .lessOrEqual, .int, .int, .bool⟩,
   ⟨.greater, .greater, .int, .int, .bool⟩,
   ⟨.greaterEquals, .greaterOrEqual, .int, .int, .bool⟩,
   ⟨.and, .logicalAnd, .bool, .bool, .bool⟩,
   ⟨.or, .logicalOr, .bool, .bool, .bool⟩,
   ⟨.ampersand, .bitwiseAnd, .bool, .bool, .bool⟩,
   ⟨.pipe, .bitwiseOr, .bool, .bool, .bool⟩,
   ⟨.hat, .bitwiseXor, .bool, .bool, .bool⟩,
   ⟨.equals, .equals, .bool, .bool, .bool⟩,
   ⟨.notEquals, .notEquals, .bool, .bool, .bool⟩,
   ⟨.equals, .equals, .string, .string, .bool⟩,
   ⟨.notEquals, .notEquals, .string, .string, .bool⟩]

/-- The operator of a spelling for the types of its operands. -/
def find? (token : Kind) (left right : Ty) : Option BinaryOperator :=
  table.find? fun o => o.token == token && o.left == left && o.right == right

/-- The spelling of an operator. -/
def display (o : BinaryOperator) : String := o.token.fixedText?.getD "?"

/-- What is found is a row of the table and fits what was asked for. -/
theorem find?_eq_some {token : Kind} {left right : Ty} {o : BinaryOperator}
    (h : find? token left right = some o) :
    o ∈ table ∧ o.token = token ∧ o.left = left ∧ o.right = right := by
  have fits := List.find?_some h
  simp only [Bool.and_eq_true, beq_iff_eq, and_assoc] at fits
  exact ⟨List.mem_of_find?_eq_some h, fits⟩

end BinaryOperator

end Scriptlet
