import Scriptlet.Proofs.Lowering.Structured

/-!
# Well-typed bound trees

A bound tree is well typed if everything in it fits together: operators are rows
of the tables and have operands of the types the rows name, calls are calls of
functions of the language with arguments of the types of the parameters, and
variables are given values of their own types only.
-/

namespace Scriptlet.Bound

/-- All parts of an expression fit together. -/
inductive Expr.WellTyped : Expr → Prop where
  | literal (value : Value) : WellTyped (.literal value)
  | name (target : Variable) (meaningful : target.type ≠ .error) : WellTyped (.name target)
  | assignment (target : Variable) (value : Expr) (part : WellTyped value)
      (fits : value.type = target.type) : WellTyped (.assignment target value)
  | unary (o : UnaryOperator) (operand : Expr) (row : o ∈ UnaryOperator.table)
      (part : WellTyped operand) (fits : operand.type = o.operand) : WellTyped (.unary o operand)
  | binary (left : Expr) (o : BinaryOperator) (right : Expr) (row : o ∈ BinaryOperator.table)
      (part : WellTyped left) (part' : WellTyped right) (fits : left.type = o.left)
      (fits' : right.type = o.right) : WellTyped (.binary left o right)
  | call (f : Function) (arguments : List Expr) (known : f ∈ Function.builtins)
      (parts : ∀ e ∈ arguments, WellTyped e)
      (fit : arguments.map Expr.type = f.parameters.map Parameter.type) :
      WellTyped (.call f arguments)

/-- What is well typed has a meaning. -/
theorem Expr.WellTyped.type_ne_error {e : Expr} (h : e.WellTyped) : e.type ≠ .error := by
  induction h with
  | literal value => exact value.type_ne_error
  | name _ meaningful => exact meaningful
  | assignment _ _ _ _ ih => exact ih
  | unary o _ row _ _ =>
    have rows : ∀ o ∈ UnaryOperator.table, o.result ≠ .error := by decide
    exact rows o row
  | binary _ o _ row _ _ _ _ =>
    have rows : ∀ o ∈ BinaryOperator.table, o.result ≠ .error := by decide
    exact rows o row
  | call f _ known _ _ =>
    have rows : ∀ f ∈ Function.builtins, f.returns ≠ .error := by decide
    exact rows f known

/-- All parts of a statement fit together, and it has neither jumps nor labels
in it. -/
inductive Stmt.WellTyped : Stmt → Prop where
  | block (statements : List Stmt) (parts : ∀ s ∈ statements, WellTyped s) :
      WellTyped (block statements)
  | declaration (target : Variable) (initializer : Expr) (part : initializer.WellTyped)
      (fits : initializer.type = target.type) : WellTyped (declaration target initializer)
  | expression (inner : Expr) (part : inner.WellTyped) : WellTyped (expression inner)
  | ifThen (condition : Expr) (consequence : Stmt) (test : condition.WellTyped)
      (truth : condition.type = .bool) (part : WellTyped consequence) :
      WellTyped (ifThen condition consequence)
  | ifElse (condition : Expr) (consequence alternative : Stmt) (test : condition.WellTyped)
      (truth : condition.type = .bool) (part : WellTyped consequence)
      (part' : WellTyped alternative) : WellTyped (ifElse condition consequence alternative)
  | whileLoop (condition : Expr) (body : Stmt) (test : condition.WellTyped)
      (truth : condition.type = .bool) (part : WellTyped body) :
      WellTyped (whileLoop condition body)
  | forLoop (target : Variable) (lower upper : Expr) (body : Stmt) (first : lower.WellTyped)
      (last : upper.WellTyped) (counts : target.type = .int) (fits : lower.type = .int)
      (fits' : upper.type = .int) (part : WellTyped body) :
      WellTyped (forLoop target lower upper body)

/-- What is well typed is structured. -/
theorem Stmt.WellTyped.structured {s : Stmt} (h : s.WellTyped) : s.Structured := by
  induction h with
  | block ss _ ih => exact .block ss ih
  | declaration => exact .declaration ..
  | expression => exact .expression _
  | ifThen _ _ _ _ _ ih => exact .ifThen _ _ ih
  | ifElse _ _ _ _ _ _ _ ih ih' => exact .ifElse _ _ _ ih ih'
  | whileLoop _ _ _ _ _ ih => exact .whileLoop _ _ ih
  | forLoop _ _ _ _ _ _ _ _ _ _ ih => exact .forLoop _ _ _ _ ih

end Scriptlet.Bound
