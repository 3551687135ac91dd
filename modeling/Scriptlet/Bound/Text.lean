import Scriptlet.Bound.Tree
import Scriptlet.Text.Quoted

/-!
# The text of bound trees

Bound programs are shown with one statement per line, four spaces for every
level of nesting, and every operation between parentheses, so that the text
shows how a program was understood.
-/

namespace Scriptlet.Bound

mutual

/-- The text of an expression. -/
def Expr.render : Expr → String
  | .literal (.string value) => Text.quoted value
  | .literal value => value.display
  | .name target => target.name
  | .assignment target value => s!"({target.name} = " ++ value.render ++ ")"
  | .unary operator operand => operator.display ++ operand.render
  | .binary left operator right =>
    "(" ++ left.render ++ s!" {operator.display} " ++ right.render ++ ")"
  | .call function arguments =>
    s!"{function.name}(" ++ ", ".intercalate (Expr.renderAll arguments) ++ ")"
  | .error => "?"

/-- The texts of a row of expressions. -/
def Expr.renderAll : List Expr → List String
  | [] => []
  | e :: es => e.render :: Expr.renderAll es

end

/-- The blanks in front of a line at a level of nesting. -/
def indentation (level : Nat) : String := String.ofList (List.replicate (4 * level) ' ')

/-- A line of text at a level of nesting. -/
def line (level : Nat) (text : String) : String := indentation level ++ text ++ "\n"

mutual

/-- The text of a statement at a level of nesting. Labels stand one level
further out. -/
def Stmt.renderAt (level : Nat) : Stmt → String
  | .block statements =>
    line level "\x7b" ++ Stmt.renderAllAt (level + 1) statements ++ line level "\x7d"
  | .declaration target initializer =>
    let keyword := if target.isReadOnly then "let" else "var"
    line level (s!"{keyword} {target.name} = " ++ initializer.render)
  | .expression inner => line level inner.render
  | .ifThen condition consequence =>
    line level ("if " ++ condition.render) ++ consequence.renderAt (level + 1)
  | .ifElse condition consequence alternative =>
    line level ("if " ++ condition.render) ++ consequence.renderAt (level + 1) ++
      line level "else" ++ alternative.renderAt (level + 1)
  | .whileLoop condition body =>
    line level ("while " ++ condition.render) ++ body.renderAt (level + 1)
  | .forLoop target lower upper body =>
    line level (s!"for {target.name} = " ++ lower.render ++ " to " ++ upper.render) ++
      body.renderAt (level + 1)
  | .goto target => line level s!"goto {target.name}"
  | .gotoIf target condition expected =>
    line level ((if expected then "gotoTrue " else "gotoFalse ") ++ condition.render ++
      s!" {target.name}")
  | .label placed => line (level - 1) s!"{placed.name}:"

/-- The text of a row of statements at a level of nesting. -/
def Stmt.renderAllAt (level : Nat) : List Stmt → String
  | [] => ""
  | s :: ss => s.renderAt level ++ Stmt.renderAllAt level ss

end

/-- The text of a statement. -/
def Stmt.render (s : Stmt) : String := s.renderAt 0

end Scriptlet.Bound
