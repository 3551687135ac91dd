import Scriptlet.Operator
import Scriptlet.Symbol

/-!
# Bound trees

Programs with all names resolved to the things they stand for and all
operators to their operations. Besides the structured statements there are
jumps and labels, into which a structured program is lowered before it runs.
-/

namespace Scriptlet.Bound

/-- Expressions whose names and operators are resolved. -/
inductive Expr where
  | literal (value : Value)
  /-- The value of a variable. -/
  | name (target : Variable)
  /-- Gives a variable a value, which is also the value of the expression. -/
  | assignment (target : Variable) (value : Expr)
  | unary (operator : UnaryOperator) (operand : Expr)
  | binary (left : Expr) (operator : BinaryOperator) (right : Expr)
  | call (function : Function) (arguments : List Expr)
  /-- Stands for an expression that has no meaning. -/
  | error
  deriving Repr, Inhabited

/-- The static type of an expression. -/
def Expr.type : Expr → Ty
  | .literal value => value.type
  | .name target => target.type
  | .assignment _ value => value.type
  | .unary operator _ => operator.result
  | .binary _ operator _ => operator.result
  | .call function _ => function.returns
  | .error => .error

/-- Statements whose names and operators are resolved. -/
inductive Stmt where
  | block (statements : List Stmt)
  | declaration (target : Variable) (initializer : Expr)
  | expression (inner : Expr)
  | ifThen (condition : Expr) (consequence : Stmt)
  | ifElse (condition : Expr) (consequence alternative : Stmt)
  | whileLoop (condition : Expr) (body : Stmt)
  | forLoop (target : Variable) (lower upper : Expr) (body : Stmt)
  | goto (target : Label)
  /-- Jumps if the condition has the expected value. -/
  | gotoIf (target : Label) (condition : Expr) (expected : Bool)
  | label (placed : Label)
  deriving Repr, Inhabited

namespace Stmt

/-- The name of the sort of statement. -/
def name : Stmt → String
  | block _ => "Block"
  | declaration .. => "VariableDeclaration"
  | expression _ => "Expression"
  | ifThen .. | ifElse .. => "If"
  | whileLoop .. => "While"
  | forLoop .. => "For"
  | goto _ => "Goto"
  | gotoIf .. => "ConditionalGoto"
  | label _ => "Label"

/-- The type of the expression that a simple statement evaluates. -/
def type? : Stmt → Option Ty
  | declaration _ initializer => some initializer.type
  | expression inner => some inner.type
  | gotoIf _ condition _ => some condition.type
  | _ => none

/-- The label that a jump goes to. -/
def jump? : Stmt → Option Label
  | goto target => some target
  | gotoIf target _ _ => some target
  | _ => none

/-- The label that the statement places. -/
def placed? : Stmt → Option Label
  | label placed => some placed
  | _ => none

end Stmt

end Scriptlet.Bound
