import Scriptlet.Proofs.Resolving.Rules

/-!
# Places mean nothing

The rules look at the kinds and texts of tokens and at the values of literals,
and never at the places where the tokens stand. So a statement means the same
wherever it is written.
-/

namespace Scriptlet

/-- The token without its place. -/
def Token.unplaced (token : Token) : Token := { token with span := .empty 0 }

namespace Syntax

mutual

/-- The expression without the places of its tokens. -/
def Expr.unplaced : Expr → Expr
  | .literal token => .literal token.unplaced
  | .name identifier => .name identifier.unplaced
  | .assignment identifier equals value =>
    .assignment identifier.unplaced equals.unplaced value.unplaced
  | .unary operator operand => .unary operator.unplaced operand.unplaced
  | .binary left operator right => .binary left.unplaced operator.unplaced right.unplaced
  | .grouped opening inner closing => .grouped opening.unplaced inner.unplaced closing.unplaced
  | .call identifier opening arguments closing =>
    .call identifier.unplaced opening.unplaced (Expr.unplacedAll arguments) closing.unplaced

/-- A row of expressions without the places of their tokens. -/
def Expr.unplacedAll : List Expr → List Expr
  | [] => []
  | e :: es => e.unplaced :: Expr.unplacedAll es

end

mutual

/-- The statement without the places of its tokens. -/
def Stmt.unplaced : Stmt → Stmt
  | .block opening statements closing =>
    .block opening.unplaced (Stmt.unplacedAll statements) closing.unplaced
  | .declaration keyword identifier equals initializer =>
    .declaration keyword.unplaced identifier.unplaced equals.unplaced initializer.unplaced
  | .ifThen keyword condition consequence =>
    .ifThen keyword.unplaced condition.unplaced consequence.unplaced
  | .ifElse keyword condition consequence elseWord alternative =>
    .ifElse keyword.unplaced condition.unplaced consequence.unplaced elseWord.unplaced
      alternative.unplaced
  | .whileLoop keyword condition body =>
    .whileLoop keyword.unplaced condition.unplaced body.unplaced
  | .forLoop keyword identifier equals lower toWord upper body =>
    .forLoop keyword.unplaced identifier.unplaced equals.unplaced lower.unplaced toWord.unplaced
      upper.unplaced body.unplaced
  | .expression inner => .expression inner.unplaced

/-- A row of statements without the places of their tokens. -/
def Stmt.unplacedAll : List Stmt → List Stmt
  | [] => []
  | s :: ss => s.unplaced :: Stmt.unplacedAll ss

end

mutual

/-- An expression means without places what it means in its place. -/
theorem Expr.Elaborates.unplaced {outer : Rows} {here there : Frame} {e : Expr}
    {bound : Bound.Expr} (h : e.Elaborates outer here bound there) :
    e.unplaced.Elaborates outer here bound there := by
  cases h with
  | literal token => exact .literal token.unplaced
  | name present visible => exact .name present visible
  | assignKnown part valued visible writable fits =>
    exact .assignKnown part.unplaced valued visible writable fits
  | assignNew part valued invisible => exact .assignNew part.unplaced valued invisible
  | unary part row => exact .unary part.unplaced row
  | binary part part' row => exact .binary part.unplaced part'.unplaced row
  | grouped part valued => exact .grouped part.unplaced valued
  | call parts known fit => exact .call parts.unplaced known fit

/-- A row of expressions means without places what it means in its place. -/
theorem Expr.ElaborateAll.unplaced {outer : Rows} {here there : Frame} {es : List Expr}
    {bounds : List Bound.Expr} (h : Expr.ElaborateAll outer here es bounds there) :
    Expr.ElaborateAll outer here (Expr.unplacedAll es) bounds there := by
  cases h with
  | nil => exact .nil
  | cons part valued parts => exact .cons part.unplaced valued parts.unplaced

end

mutual

/-- A statement means without places what it means in its place. -/
theorem Stmt.Elaborates.unplaced {outer : Rows} {here there : Frame} {s : Stmt}
    {bound : Bound.Stmt} (h : s.Elaborates outer here bound there) :
    s.unplaced.Elaborates outer here bound there := by
  cases h with
  | block parts => exact .block parts.unplaced
  | declaration part valued present free => exact .declaration part.unplaced valued present free
  | ifThen test truth part => exact .ifThen test.unplaced truth part.unplaced
  | ifElse test truth part part' =>
    exact .ifElse test.unplaced truth part.unplaced part'.unplaced
  | whileLoop test truth part => exact .whileLoop test.unplaced truth part.unplaced
  | forLoop first count last count' present part =>
    exact .forLoop first.unplaced count last.unplaced count' present part.unplaced
  | expression part => exact .expression part.unplaced

/-- A row of statements means without places what it means in its place. -/
theorem Stmt.ElaborateAll.unplaced {outer : Rows} {here there : Frame} {ss : List Stmt}
    {bounds : List Bound.Stmt} (h : Stmt.ElaborateAll outer here ss bounds there) :
    Stmt.ElaborateAll outer here (Stmt.unplacedAll ss) bounds there := by
  cases h with
  | nil => exact .nil
  | cons part parts => exact .cons part.unplaced parts.unplaced

end

mutual

/-- An expression means in its place what it means without places. -/
theorem Expr.elaborates_of_unplaced {outer : Rows} {here there : Frame} {bound : Bound.Expr}
    (e : Expr) (h : e.unplaced.Elaborates outer here bound there) :
    e.Elaborates outer here bound there := by
  cases e with
  | literal token =>
    cases h with
    | literal => exact .literal token
  | name identifier =>
    cases h with
    | name present visible => exact .name present visible
  | assignment identifier equals value =>
    cases h with
    | assignKnown part valued visible writable fits =>
      exact .assignKnown (value.elaborates_of_unplaced part) valued visible writable fits
    | assignNew part valued invisible =>
      exact .assignNew (value.elaborates_of_unplaced part) valued invisible
  | unary operator operand =>
    cases h with
    | unary part row => exact .unary (operand.elaborates_of_unplaced part) row
  | binary left operator right =>
    cases h with
    | binary part part' row =>
      exact .binary (left.elaborates_of_unplaced part) (right.elaborates_of_unplaced part') row
  | grouped opening inner closing =>
    cases h with
    | grouped part valued => exact .grouped (inner.elaborates_of_unplaced part) valued
  | call identifier opening arguments closing =>
    cases h with
    | call parts known fit => exact .call (Expr.elaborateAll_of_unplaced arguments parts) known fit

/-- A row of expressions means in its place what it means without places. -/
theorem Expr.elaborateAll_of_unplaced {outer : Rows} {here there : Frame}
    {bounds : List Bound.Expr} (es : List Expr)
    (h : Expr.ElaborateAll outer here (Expr.unplacedAll es) bounds there) :
    Expr.ElaborateAll outer here es bounds there := by
  cases es with
  | nil =>
    cases h with
    | nil => exact .nil
  | cons e es =>
    cases h with
    | cons part valued parts =>
      exact .cons (e.elaborates_of_unplaced part) valued (Expr.elaborateAll_of_unplaced es parts)

end

mutual

/-- A statement means in its place what it means without places. -/
theorem Stmt.elaborates_of_unplaced {outer : Rows} {here there : Frame} {bound : Bound.Stmt}
    (s : Stmt) (h : s.unplaced.Elaborates outer here bound there) :
    s.Elaborates outer here bound there := by
  cases s with
  | block opening statements closing =>
    cases h with
    | block parts => exact .block (Stmt.elaborateAll_of_unplaced statements parts)
  | declaration keyword identifier equals initializer =>
    cases h with
    | declaration part valued present free =>
      exact .declaration (initializer.elaborates_of_unplaced part) valued present free
  | ifThen keyword condition consequence =>
    cases h with
    | ifThen test truth part =>
      exact .ifThen (condition.elaborates_of_unplaced test) truth
        (consequence.elaborates_of_unplaced part)
  | ifElse keyword condition consequence elseWord alternative =>
    cases h with
    | ifElse test truth part part' =>
      exact .ifElse (condition.elaborates_of_unplaced test) truth
        (consequence.elaborates_of_unplaced part) (alternative.elaborates_of_unplaced part')
  | whileLoop keyword condition body =>
    cases h with
    | whileLoop test truth part =>
      exact .whileLoop (condition.elaborates_of_unplaced test) truth
        (body.elaborates_of_unplaced part)
  | forLoop keyword identifier equals lower toWord upper body =>
    cases h with
    | forLoop first count last count' present part =>
      exact .forLoop (lower.elaborates_of_unplaced first) count
        (upper.elaborates_of_unplaced last) count' present (body.elaborates_of_unplaced part)
  | expression inner =>
    cases h with
    | expression part => exact .expression (inner.elaborates_of_unplaced part)

/-- A row of statements means in its place what it means without places. -/
theorem Stmt.elaborateAll_of_unplaced {outer : Rows} {here there : Frame}
    {bounds : List Bound.Stmt} (ss : List Stmt)
    (h : Stmt.ElaborateAll outer here (Stmt.unplacedAll ss) bounds there) :
    Stmt.ElaborateAll outer here ss bounds there := by
  cases ss with
  | nil =>
    cases h with
    | nil => exact .nil
  | cons s ss =>
    cases h with
    | cons part parts =>
      exact .cons (s.elaborates_of_unplaced part) (Stmt.elaborateAll_of_unplaced ss parts)

end

end Syntax

end Scriptlet
