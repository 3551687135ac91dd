import Scriptlet.Token

/-!
# Syntax trees

The tree of a source text, token by token. Every node keeps its tokens, so the
tree knows where each of its parts stands; a part that the source lacks is held
by a missing token. The span of a node reaches from its first token to its last.
-/

namespace Scriptlet.Syntax

/-- Expressions as they are written. -/
inductive Expr where
  /-- A number, a string or a truth value. -/
  | literal (token : Token)
  /-- The name of a variable. -/
  | name (identifier : Token)
  | assignment (identifier equals : Token) (value : Expr)
  | unary (operator : Token) (operand : Expr)
  | binary (left : Expr) (operator : Token) (right : Expr)
  | grouped (opening : Token) (inner : Expr) (closing : Token)
  /-- A call; the commas between its arguments are not kept. -/
  | call (identifier opening : Token) (arguments : List Expr) (closing : Token)
  deriving Repr, Inhabited

/-- Statements as they are written. -/
inductive Stmt where
  | block (opening : Token) (statements : List Stmt) (closing : Token)
  /-- A declaration, read-only or not as its keyword says. -/
  | declaration (keyword identifier equals : Token) (initializer : Expr)
  | ifThen (keyword : Token) (condition : Expr) (consequence : Stmt)
  | ifElse (keyword : Token) (condition : Expr) (consequence : Stmt) (elseWord : Token)
      (alternative : Stmt)
  | whileLoop (keyword : Token) (condition : Expr) (body : Stmt)
  /-- A counting loop; both of its bounds belong to the range. -/
  | forLoop (keyword identifier equals : Token) (lower : Expr) (toWord : Token) (upper : Expr)
      (body : Stmt)
  | expression (inner : Expr)
  deriving Repr, Inhabited

/-- A whole submission: one statement and the end of the source. -/
structure Script where
  statement : Stmt
  endOfFile : Token
  deriving Repr, Inhabited

/-- The place of an expression. -/
def Expr.span : Expr → Span
  | .literal token => token.span
  | .name identifier => identifier.span
  | .assignment identifier _ value => identifier.span.cover value.span
  | .unary operator operand => operator.span.cover operand.span
  | .binary left _ right => left.span.cover right.span
  | .grouped opening _ closing => opening.span.cover closing.span
  | .call identifier _ _ closing => identifier.span.cover closing.span

/-- The place of a statement. -/
def Stmt.span : Stmt → Span
  | .block opening _ closing => opening.span.cover closing.span
  | .declaration keyword _ _ initializer => keyword.span.cover initializer.span
  | .ifThen keyword _ consequence => keyword.span.cover consequence.span
  | .ifElse keyword _ _ _ alternative => keyword.span.cover alternative.span
  | .whileLoop keyword _ body => keyword.span.cover body.span
  | .forLoop keyword _ _ _ _ _ body => keyword.span.cover body.span
  | .expression inner => inner.span

/-- The place of a submission. -/
def Script.span (s : Script) : Span := s.statement.span.cover s.endOfFile.span

end Scriptlet.Syntax
