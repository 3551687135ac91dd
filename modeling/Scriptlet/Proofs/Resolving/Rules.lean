import Scriptlet.Proofs.Resolving.Surroundings

/-!
# The rules of the language

Which trees mean something, and what they mean, as rules without reports and
without states: one rule for each way to write an expression or a statement.
The rules follow the order in which names are declared, from left to right, so
each of them leads from the innermost scope in front of a tree to the same
scope behind it.
-/

namespace Scriptlet.Syntax

mutual

/-- An expression, met in a scope inside others, means a bound expression. -/
inductive Expr.Elaborates (outer : Rows) : Frame → Expr → Bound.Expr → Frame → Prop where
  | literal {here : Frame} (token : Token) :
      Elaborates outer here (.literal token) (.literal (token.literal?.getD (.int 0))) here
  | name {here : Frame} {identifier : Token} {v : Variable}
      (present : identifier.isMissing = false)
      (visible : (here.rows outer).lookup? identifier.text = some v) :
      Elaborates outer here (.name identifier) (.name v) here
  /-- A visible name is given a value, unless it is read-only. -/
  | assignKnown {here there : Frame} {identifier equals : Token} {value : Expr}
      {bound : Bound.Expr} {v : Variable} (part : Elaborates outer here value bound there)
      (valued : bound.type ≠ .void)
      (visible : (there.rows outer).lookup? identifier.text = some v)
      (writable : v.isReadOnly = false) (fits : bound.type = v.type) :
      Elaborates outer here (.assignment identifier equals value) (.assignment v bound) there
  /-- A name that is not visible is declared by giving it a value. -/
  | assignNew {here there : Frame} {identifier equals : Token} {value : Expr}
      {bound : Bound.Expr} (part : Elaborates outer here value bound there)
      (valued : bound.type ≠ .void)
      (invisible : (there.rows outer).lookup? identifier.text = none) :
      Elaborates outer here (.assignment identifier equals value)
        (.assignment (there.next identifier.text bound.type false) bound)
        (there.declare identifier.text bound.type false)
  | unary {here there : Frame} {operator : Token} {operand : Expr} {bound : Bound.Expr}
      {o : UnaryOperator} (part : Elaborates outer here operand bound there)
      (row : UnaryOperator.find? operator.kind bound.type = some o) :
      Elaborates outer here (.unary operator operand) (.unary o bound) there
  | binary {here between there : Frame} {left right : Expr} {operator : Token}
      {boundLeft boundRight : Bound.Expr} {o : BinaryOperator}
      (part : Elaborates outer here left boundLeft between)
      (part' : Elaborates outer between right boundRight there)
      (row : BinaryOperator.find? operator.kind boundLeft.type boundRight.type = some o) :
      Elaborates outer here (.binary left operator right) (.binary boundLeft o boundRight) there
  | grouped {here there : Frame} {opening closing : Token} {inner : Expr} {bound : Bound.Expr}
      (part : Elaborates outer here inner bound there) (valued : bound.type ≠ .void) :
      Elaborates outer here (.grouped opening inner closing) bound there
  | call {here there : Frame} {identifier opening closing : Token} {arguments : List Expr}
      {bounds : List Bound.Expr} {f : Function}
      (parts : Expr.ElaborateAll outer here arguments bounds there)
      (known : Function.builtins.find? (·.name == identifier.text) = some f)
      (fit : bounds.map Bound.Expr.type = f.parameters.map Parameter.type) :
      Elaborates outer here (.call identifier opening arguments closing) (.call f bounds) there

/-- The expressions of a row, one behind the other, have the values of bound
expressions. -/
inductive Expr.ElaborateAll (outer : Rows) : Frame → List Expr → List Bound.Expr → Frame → Prop
    where
  | nil {here : Frame} : ElaborateAll outer here [] [] here
  | cons {here between there : Frame} {e : Expr} {es : List Expr} {bound : Bound.Expr}
      {bounds : List Bound.Expr} (part : Expr.Elaborates outer here e bound between)
      (valued : bound.type ≠ .void) (parts : ElaborateAll outer between es bounds there) :
      ElaborateAll outer here (e :: es) (bound :: bounds) there

end

mutual

/-- A statement, met in a scope inside others, means a bound statement. -/
inductive Stmt.Elaborates : Rows → Frame → Stmt → Bound.Stmt → Frame → Prop where
  | block {outer : Rows} {here inner : Frame} {opening closing : Token} {ss : List Stmt}
      {bounds : List Bound.Stmt}
      (parts : Stmt.ElaborateAll (here.rows outer) (.fresh here.nextId) ss bounds inner) :
      Elaborates outer here (.block opening ss closing) (.block bounds) (here.behind inner)
  | declaration {outer : Rows} {here there : Frame} {keyword identifier equals : Token}
      {initializer : Expr} {bound : Bound.Expr}
      (part : initializer.Elaborates outer here bound there) (valued : bound.type ≠ .void)
      (present : identifier.isMissing = false)
      (free : there.vars.find? (·.name == identifier.text) = none) :
      Elaborates outer here (.declaration keyword identifier equals initializer)
        (.declaration (there.next identifier.text bound.type (keyword.kind == .letWord)) bound)
        (there.declare identifier.text bound.type (keyword.kind == .letWord))
  | ifThen {outer : Rows} {here between inner : Frame} {keyword : Token} {condition : Expr}
      {consequence : Stmt} {boundCondition : Bound.Expr} {boundConsequence : Bound.Stmt}
      (test : condition.Elaborates outer here boundCondition between)
      (truth : boundCondition.type = .bool)
      (part : Elaborates (between.rows outer) (.fresh between.nextId) consequence boundConsequence
        inner) :
      Elaborates outer here (.ifThen keyword condition consequence)
        (.ifThen boundCondition boundConsequence) (between.behind inner)
  | ifElse {outer : Rows} {here between inner inner' : Frame} {keyword elseWord : Token}
      {condition : Expr} {consequence alternative : Stmt} {boundCondition : Bound.Expr}
      {boundConsequence boundAlternative : Bound.Stmt}
      (test : condition.Elaborates outer here boundCondition between)
      (truth : boundCondition.type = .bool)
      (part : Elaborates (between.rows outer) (.fresh between.nextId) consequence boundConsequence
        inner)
      (part' : Elaborates (between.rows outer) (.fresh inner.nextId) alternative boundAlternative
        inner') :
      Elaborates outer here (.ifElse keyword condition consequence elseWord alternative)
        (.ifElse boundCondition boundConsequence boundAlternative) (between.behind inner')
  | whileLoop {outer : Rows} {here between inner : Frame} {keyword : Token} {condition : Expr}
      {body : Stmt} {boundCondition : Bound.Expr} {boundBody : Bound.Stmt}
      (test : condition.Elaborates outer here boundCondition between)
      (truth : boundCondition.type = .bool)
      (part : Elaborates (between.rows outer) (.fresh between.nextId) body boundBody inner) :
      Elaborates outer here (.whileLoop keyword condition body)
        (.whileLoop boundCondition boundBody) (between.behind inner)
  /-- The variable of a counting loop stands in the scope of the body. -/
  | forLoop {outer : Rows} {here between between' inner : Frame}
      {keyword identifier equals toWord : Token} {lower upper : Expr} {body : Stmt}
      {boundLower boundUpper : Bound.Expr} {boundBody : Bound.Stmt}
      (first : lower.Elaborates outer here boundLower between) (count : boundLower.type = .int)
      (last : upper.Elaborates outer between boundUpper between') (count' : boundUpper.type = .int)
      (present : identifier.isMissing = false)
      (part : Elaborates (between'.rows outer)
        ((Frame.fresh between'.nextId).declare identifier.text .int true) body boundBody inner) :
      Elaborates outer here (.forLoop keyword identifier equals lower toWord upper body)
        (.forLoop (between'.next identifier.text .int true) boundLower boundUpper boundBody)
        (between'.behind inner)
  | expression {outer : Rows} {here there : Frame} {inner : Expr} {bound : Bound.Expr}
      (part : inner.Elaborates outer here bound there) :
      Elaborates outer here (.expression inner) (.expression bound) there

/-- The statements of a row, one behind the other, mean bound statements. -/
inductive Stmt.ElaborateAll : Rows → Frame → List Stmt → List Bound.Stmt → Frame → Prop where
  | nil {outer : Rows} {here : Frame} : ElaborateAll outer here [] [] here
  | cons {outer : Rows} {here between there : Frame} {s : Stmt} {ss : List Stmt}
      {bound : Bound.Stmt} {bounds : List Bound.Stmt}
      (part : Stmt.Elaborates outer here s bound between)
      (parts : ElaborateAll outer between ss bounds there) :
      ElaborateAll outer here (s :: ss) (bound :: bounds) there

end

end Scriptlet.Syntax
