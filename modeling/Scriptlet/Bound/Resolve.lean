import Scriptlet.Bound.Tree
import Scriptlet.Reporting
import Scriptlet.Scope
import Scriptlet.Syntax.Tree

/-!
# Resolving names and types

Turns a syntax tree into a bound tree. Names are resolved in the scopes that
enclose them at the moment they are met, operators by the types of their
operands. Resolving never fails: a problem is reported and the faulty part is
replaced by something that causes no further report.
-/

namespace Scriptlet

/-- What resolving works on. -/
structure Scoping where
  /-- All open scopes. -/
  tree : ScopeTree
  /-- Index of the scope in which names are met and declared. -/
  current : Nat
  /-- Identity of the next variable. -/
  nextId : Nat
  deriving Repr

/-- A computation that declares and looks up names. -/
abbrev Resolving := Reporting Scoping

namespace Resolving

open Reporting Scriptlet.Bound

/-- The innermost visible variable of a name. -/
def visibleVariable (name : String) : Resolving (Option Variable) := do
  let s ← state
  return s.tree.lookupVariable? s.current name

/-- The innermost visible function of a name. -/
def visibleFunction (name : String) : Resolving (Option Function) := do
  let s ← state
  return s.tree.lookupFunction? s.current name

/-- A variable that differs from every other one; no scope holds it yet. -/
def newVariable (name : String) (type : Ty) (isReadOnly : Bool) : Resolving Variable := do
  let s ← state
  setState { s with nextId := s.nextId + 1 }
  return ⟨s.nextId, name, type, isReadOnly⟩

/-- Declares a variable in the current scope; false if its name is taken there. -/
def declare (v : Variable) : Resolving Bool := do
  let s ← state
  let (tree, declared) := s.tree.declareVariable s.current v
  setState { s with tree }
  return declared

/-- Opens a scope inside the current one. -/
def openScope : Resolving Unit :=
  modifyState fun s =>
    let (tree, current) := s.tree.push s.current
    { s with tree, current }

/-- Closes the current scope. -/
def closeScope : Resolving Unit :=
  modifyState fun s =>
    let (tree, parent?) := s.tree.pop
    { s with tree, current := parent?.getD s.current }

/-- Runs a computation in a scope of its own. -/
def inScope {α : Type} (m : Resolving α) : Resolving α := do
  openScope
  let a ← m
  closeScope
  return a

/-- Requires an expression to have a value. -/
def asValue (span : Span) (e : Expr) : Resolving Expr := do
  if e.type = .void then
    report .expressionMustHaveValue span
    return .error
  else
    return e

/-- Requires an expression to be of a type. What has no meaning passes. -/
def asType (type : Ty) (span : Span) (e : Expr) : Resolving Expr := do
  if e.type ≠ .error ∧ e.type ≠ type then
    report (.cannotConvert e.type type) span
    return .error
  else
    return e

/-- Compares arguments with parameters, one by one; true if all of them fit.
Arguments without a meaning do not fit, but that has been reported. -/
def argumentsFit : List (Span × Expr) → List Parameter → Resolving Bool
  | (span, argument) :: arguments, parameter :: parameters => do
    if argument.type ≠ .error ∧ argument.type ≠ parameter.type then
      report (.cannotConvert argument.type parameter.type) span
    let restFit ← argumentsFit arguments parameters
    return argument.type == parameter.type && restFit
  | _, _ => return true

end Resolving

namespace Syntax

open Reporting Resolving

mutual

/-- Resolves an expression, which need not have a value. -/
def Expr.resolve : Expr → Resolving Bound.Expr
  | .literal token => return .literal (token.literal?.getD (.int 0))
  | .name identifier => do
    if identifier.isMissing then
      return .error
    else
      match ← visibleVariable identifier.text with
      | some v => return .name v
      | none =>
        report (.undefinedName identifier.text) identifier.span
        return .literal (.int 0)
  | .assignment identifier equals value => do
    let bound ← asValue value.span (← value.resolve)
    let target ← assignee identifier.text bound.type
    if target.isReadOnly then
      report (.cannotAssign identifier.text) equals.span
    if bound.type ≠ .error ∧ target.type ≠ .error ∧ bound.type ≠ target.type then
      report (.cannotConvert bound.type target.type) value.span
      return .error
    else
      return .assignment target bound
  | .unary operator operand => do
    let bound ← asValue operand.span (← operand.resolve)
    if bound.type = .error then
      return .error
    else
      match UnaryOperator.find? operator.kind bound.type with
      | some o => return .unary o bound
      | none =>
        report (.undefinedUnaryOperator operator.text bound.type) operator.span
        return bound
  | .binary left operator right => do
    let boundLeft ← asValue left.span (← left.resolve)
    let boundRight ← asValue right.span (← right.resolve)
    if boundLeft.type = .error ∨ boundRight.type = .error then
      return .error
    else
      match BinaryOperator.find? operator.kind boundLeft.type boundRight.type with
      | some o => return .binary boundLeft o boundRight
      | none =>
        report (.undefinedBinaryOperator operator.text boundLeft.type boundRight.type) operator.span
        return boundLeft
  | .grouped _ inner _ => do asValue inner.span (← inner.resolve)
  | .call identifier _ arguments closing => do
    let bound ← Expr.resolveAll arguments
    match ← visibleFunction identifier.text with
    | none =>
      report (.undefinedFunction identifier.text) identifier.span
      return .error
    | some f =>
      if bound.length ≠ f.parameters.length then
        report (.wrongArgumentCount identifier.text f.parameters.length bound.length)
          (identifier.span.cover closing.span)
        return .error
      else
        let fit ← argumentsFit bound f.parameters
        return if fit then .call f (bound.map Prod.snd) else .error
where
  /-- The variable that an assignment to a name gives a value: the visible one,
  or else a new one, which the assignment declares. -/
  assignee (name : String) (type : Ty) : Resolving Variable := do
    match ← visibleVariable name with
    | some v => return v
    | none =>
      let v ← newVariable name type false
      let _ ← declare v
      return v

/-- Resolves a row of expressions that must have values, each with its place. -/
def Expr.resolveAll : List Expr → Resolving (List (Span × Bound.Expr))
  | [] => return []
  | e :: es => do
    let bound ← asValue e.span (← e.resolve)
    let rest ← Expr.resolveAll es
    return (e.span, bound) :: rest

end

/-- Resolves an expression that must have a value. -/
def Expr.resolveValue (e : Expr) : Resolving Bound.Expr := do asValue e.span (← e.resolve)

/-- Resolves an expression that must be of a type. -/
def Expr.resolveAs (type : Ty) (e : Expr) : Resolving Bound.Expr := do
  asType type e.span (← e.resolveValue)

mutual

/-- Resolves a statement. -/
def Stmt.resolve : Stmt → Resolving Bound.Stmt
  | .block _ statements _ => do return .block (← inScope (Stmt.resolveAll statements))
  | .declaration keyword identifier _ initializer => do
    let bound ← initializer.resolveValue
    let v ← newVariable identifier.text bound.type (keyword.kind == .letWord)
    unless identifier.isMissing do
      unless ← declare v do
        report (.variableAlreadyDeclared identifier.text) identifier.span
    return .declaration v bound
  | .ifThen _ condition consequence => do
    let boundCondition ← condition.resolveAs .bool
    let boundConsequence ← inScope consequence.resolve
    return .ifThen boundCondition boundConsequence
  | .ifElse _ condition consequence _ alternative => do
    let boundCondition ← condition.resolveAs .bool
    let boundConsequence ← inScope consequence.resolve
    let boundAlternative ← inScope alternative.resolve
    return .ifElse boundCondition boundConsequence boundAlternative
  | .whileLoop _ condition body => do
    let boundCondition ← condition.resolveAs .bool
    let boundBody ← inScope body.resolve
    return .whileLoop boundCondition boundBody
  | .forLoop _ identifier _ lower _ upper body => do
    let boundLower ← lower.resolveAs .int
    let boundUpper ← upper.resolveAs .int
    inScope do
      let v ← newVariable identifier.text .int true
      unless identifier.isMissing do
        let _ ← declare v
      let boundBody ← body.resolve
      return .forLoop v boundLower boundUpper boundBody
  | .expression inner => do return .expression (← inner.resolve)

/-- Resolves a row of statements. -/
def Stmt.resolveAll : List Stmt → Resolving (List Bound.Stmt)
  | [] => return []
  | s :: ss => do
    let bound ← s.resolve
    let rest ← Stmt.resolveAll ss
    return bound :: rest

end

end Syntax

end Scriptlet
