import Scriptlet.Program.Lowering

/-!
# Replacing the variables and labels of a tree

A map on variables and a map on labels, applied all over a tree. The shape of the
tree and, if the types of the variables are kept, the types of its expressions do not
change. Code is made of the shape alone, so lowering commutes with replacing, as long
as the labels stay.
-/

namespace Scriptlet.Bound

variable {g : Variable → Variable} {l : Label → Label}

mutual

/-- The expression with its variables replaced. -/
def Expr.replace (g : Variable → Variable) : Expr → Expr
  | .literal value => .literal value
  | .name target => .name (g target)
  | .assignment target value => .assignment (g target) (value.replace g)
  | .unary operator operand => .unary operator (operand.replace g)
  | .binary left operator right => .binary (left.replace g) operator (right.replace g)
  | .call function arguments => .call function (Expr.replaceAll g arguments)
  | .error => .error

/-- The expressions with their variables replaced. -/
def Expr.replaceAll (g : Variable → Variable) : List Expr → List Expr
  | [] => []
  | e :: es => e.replace g :: Expr.replaceAll g es

end

theorem Expr.replaceAll_eq_map (es : List Expr) : replaceAll g es = es.map (replace g) := by
  induction es with
  | nil => rfl
  | cons e es ih => rw [replaceAll, ih, List.map_cons]

/-- Variables of the same types leave all types as they are. -/
theorem Expr.replace_type (types : ∀ v, (g v).type = v.type) (e : Expr) :
    (e.replace g).type = e.type := by
  cases e with
  | name target => exact types target
  | assignment target value => exact value.replace_type types
  | literal | unary | binary | call | error => rfl

mutual

/-- The statement with its variables and labels replaced. -/
def Stmt.replace (g : Variable → Variable) (l : Label → Label) : Stmt → Stmt
  | .block statements => .block (Stmt.replaceAll g l statements)
  | .declaration target initializer => .declaration (g target) (initializer.replace g)
  | .expression inner => .expression (inner.replace g)
  | .ifThen condition consequence => .ifThen (condition.replace g) (consequence.replace g l)
  | .ifElse condition consequence alternative =>
    .ifElse (condition.replace g) (consequence.replace g l) (alternative.replace g l)
  | .whileLoop condition body => .whileLoop (condition.replace g) (body.replace g l)
  | .forLoop target lower upper body =>
    .forLoop (g target) (lower.replace g) (upper.replace g) (body.replace g l)
  | .goto target => .goto (l target)
  | .gotoIf target condition expected => .gotoIf (l target) (condition.replace g) expected
  | .label placed => .label (l placed)

/-- The statements with their variables and labels replaced. -/
def Stmt.replaceAll (g : Variable → Variable) (l : Label → Label) : List Stmt → List Stmt
  | [] => []
  | s :: ss => s.replace g l :: Stmt.replaceAll g l ss

end

namespace Stmt

mutual

/-- Replacing makes no labels. -/
theorem labelCount_replace (s : Stmt) : (s.replace g l).labelCount = s.labelCount := by
  cases s with
  | block statements => exact labelCountAll_replaceAll statements
  | ifThen condition consequence =>
    rw [replace, labelCount, labelCount, labelCount_replace consequence]
  | ifElse condition consequence alternative =>
    rw [replace, labelCount, labelCount, labelCount_replace consequence,
      labelCount_replace alternative]
  | whileLoop condition body => rw [replace, labelCount, labelCount, labelCount_replace body]
  | forLoop target lower upper body =>
    rw [replace, labelCount, labelCount, labelCount_replace body]
  | declaration | expression | goto | gotoIf | label => rfl

/-- Replacing makes no labels in a row of statements. -/
theorem labelCountAll_replaceAll (ss : List Stmt) :
    labelCountAll (replaceAll g l ss) = labelCountAll ss := by
  cases ss with
  | nil => rfl
  | cons s ss =>
    rw [replaceAll, labelCountAll, labelCountAll, labelCount_replace s,
      labelCountAll_replaceAll ss]

end

mutual

/-- Where the labels stay, the labels that are mentioned do not change. -/
theorem labelBound_replace (s : Stmt) : (s.replace g id).labelBound = s.labelBound := by
  cases s with
  | block statements => exact labelBoundAll_replaceAll statements
  | ifThen condition consequence => exact labelBound_replace consequence
  | ifElse condition consequence alternative =>
    rw [replace, labelBound, labelBound, labelBound_replace consequence,
      labelBound_replace alternative]
  | whileLoop condition body => exact labelBound_replace body
  | forLoop target lower upper body => exact labelBound_replace body
  | declaration | expression | goto | gotoIf | label => rfl

/-- Where the labels stay, those that a row of statements mentions do not change. -/
theorem labelBoundAll_replaceAll (ss : List Stmt) :
    labelBoundAll (replaceAll g id ss) = labelBoundAll ss := by
  cases ss with
  | nil => rfl
  | cons s ss =>
    rw [replaceAll, labelBoundAll, labelBoundAll, labelBound_replace s,
      labelBoundAll_replaceAll ss]

end

/-- The code of a loop is replaced with its parts. -/
theorem map_replace_loopCode (check body finish : Label) (condition : Expr)
    (bodyCode : Program) :
    (loopCode check body finish condition bodyCode).map (replace g l) =
      loopCode (l check) (l body) (l finish) (condition.replace g)
        (bodyCode.map (replace g l)) := by
  simp [loopCode, replace]

mutual

/-- The code of a statement with its parts replaced is the code of the statement with
its parts replaced, if the fresh labels are. -/
theorem code_replace (fresh : Nat → Label) (n : Nat) (s : Stmt) :
    (s.replace g l).code (fun k => l (fresh k)) n = (s.code fresh n).map (replace g l) := by
  cases s with
  | block statements => exact codeAll_replaceAll fresh n statements
  | ifThen condition consequence =>
    have part := code_replace fresh (n + 1) consequence
    simp [replace, code, part]
  | ifElse condition consequence alternative =>
    have part := code_replace fresh (n + 2) consequence
    have part' := code_replace fresh (n + 2 + consequence.labelCount) alternative
    simp [replace, code, labelCount_replace, part, part']
  | whileLoop condition body =>
    have part := code_replace fresh (n + 3) body
    simp [replace, code, part, map_replace_loopCode]
  | forLoop target lower upper body =>
    have part := code_replace fresh (n + 3) body
    simp [replace, code, part, map_replace_loopCode, countingCondition, countingStep, Expr.replace]
  | declaration | expression | goto | gotoIf | label => rfl

/-- The code of statements with their parts replaced is the code of the statements
with its parts replaced. -/
theorem codeAll_replaceAll (fresh : Nat → Label) (n : Nat) (ss : List Stmt) :
    codeAll (fun k => l (fresh k)) n (replaceAll g l ss) =
      (codeAll fresh n ss).map (replace g l) := by
  cases ss with
  | nil => rfl
  | cons s ss =>
    rw [replaceAll, codeAll, codeAll, code_replace fresh n s, labelCount_replace,
      codeAll_replaceAll fresh _ ss, List.map_append]

end

/-- Lowering commutes with replacing variables. -/
theorem lower_replace (s : Stmt) : (s.replace g id).lower = s.lower.map (replace g id) := by
  rw [lower, labelBound_replace]
  exact code_replace (g := g) (l := id) (freshLabel s.labelBound) 0 s

end Stmt

end Scriptlet.Bound
