import Scriptlet.Session.Submission
import Scriptlet.Syntax.Node

/-!
# What resolving is made of

Resolving a tree is a sequence of a few sorts of steps: names are looked up,
variables are made and declared, scopes are opened and closed again, and problems
are reported, each at the place of a node of the tree. A property that these
steps have and that sequences keep is one of resolving any tree.
-/

namespace Scriptlet

namespace Resolving

open Reporting

/-- A property of computations that all steps of resolving have, reports at places
of a sort among them, and that sequences and scopes of their own keep. -/
structure Closed (P : Span → Prop) (Q : (α : Type) → Resolving α → Prop) : Prop where
  pure : ∀ {α : Type} (a : α), Q α (Pure.pure a)
  bind : ∀ {α β : Type} {m : Resolving α} {f : α → Resolving β}, Q α m →
    (∀ s, Q β (f (m.run s).value)) → Q β (m >>= f)
  report : ∀ (problem : Problem) {span : Span}, P span → Q Unit (report problem span)
  visibleVariable : ∀ name, Q _ (visibleVariable name)
  visibleFunction : ∀ name, Q _ (visibleFunction name)
  newVariable : ∀ name type isReadOnly, Q _ (newVariable name type isReadOnly)
  declare : ∀ v, Q _ (declare v)
  inScope : ∀ {α : Type} {m : Resolving α}, Q α m → Q α (inScope m)

variable {P : Span → Prop} {Q : (α : Type) → Resolving α → Prop} {span : Span}

/-- A report is followed by a bare result. -/
theorem Closed.reported {α : Type} (closed : Closed P Q) (problem : Problem) (place : P span)
    (a : α) : Q α (Reporting.report problem span >>= fun _ => Pure.pure a) :=
  closed.bind (closed.report problem place) fun _ => closed.pure a

/-- A check for a value is made of the steps. -/
theorem Closed.asValue (closed : Closed P Q) (place : P span) (e : Bound.Expr) :
    Q _ (Resolving.asValue span e) := by
  unfold Resolving.asValue
  split
  · exact closed.reported _ place _
  · exact closed.pure _

/-- A check for a type is made of the steps. -/
theorem Closed.asType (closed : Closed P Q) (type : Ty) (place : P span) (e : Bound.Expr) :
    Q _ (Resolving.asType type span e) := by
  unfold Resolving.asType
  split
  · exact closed.reported _ place _
  · exact closed.pure _

/-- A comparison of arguments with parameters is made of the steps. -/
theorem Closed.argumentsFit (closed : Closed P Q) {arguments : List (Span × Bound.Expr)}
    (places : ∀ argument ∈ arguments, P argument.1) (parameters : List Parameter) :
    Q _ (Resolving.argumentsFit arguments parameters) := by
  induction arguments generalizing parameters with
  | nil => exact closed.pure _
  | cons argument arguments ih =>
    cases parameters with
    | nil => exact closed.pure _
    | cons parameter parameters =>
      obtain ⟨place, places⟩ := List.forall_mem_cons.1 places
      rw [Resolving.argumentsFit]
      have rest : Q _ (do
          let restFit ← Resolving.argumentsFit arguments parameters
          return argument.2.type == parameter.type && restFit) :=
        closed.bind (ih places parameters) fun _ => closed.pure _
      split
      · exact closed.bind (closed.report _ place) fun _ => rest
      · exact rest

end Resolving

namespace Syntax

open Resolving Node

/-- The assignment of a value to a target, unless the types do not fit. -/
def Expr.fitted (span : Span) (target : Variable) (bound : Bound.Expr) :
    Resolving Bound.Expr :=
  if bound.type ≠ .error ∧ target.type ≠ .error ∧ bound.type ≠ target.type then do
    Reporting.report (.cannotConvert bound.type target.type) span
    return .error
  else
    return .assignment target bound

/-- The assignment of a value to a target, with what is wrong with it. -/
def Expr.assigned (identifier equals : Token) (span : Span) (target : Variable)
    (bound : Bound.Expr) : Resolving Bound.Expr :=
  if target.isReadOnly then do
    Reporting.report (.cannotAssign identifier.text) equals.span
    fitted span target bound
  else
    fitted span target bound

/-- An assignment is resolved in three steps: its value, its target, and whether
the one may be given to the other. -/
theorem Expr.resolve_assignment (identifier equals : Token) (value : Expr) :
    (assignment identifier equals value).resolve = (do
      let bound ← value.resolveValue
      let target ← resolve.assignee identifier.text bound.type
      assigned identifier equals value.span target bound) := by
  rw [Expr.resolve, Expr.resolveValue, bind_assoc]
  rfl

/-- An operator in front of an operand, or what stands in for that. -/
def Expr.operated (operator : Token) (bound : Bound.Expr) : Resolving Bound.Expr :=
  if bound.type = .error then return .error
  else
    match UnaryOperator.find? operator.kind bound.type with
    | some o => return .unary o bound
    | none => do
      Reporting.report (.undefinedUnaryOperator operator.text bound.type) operator.span
      return bound

/-- An operator between two operands, or what stands in for that. -/
def Expr.combined (operator : Token) (left right : Bound.Expr) : Resolving Bound.Expr :=
  if left.type = .error ∨ right.type = .error then return .error
  else
    match BinaryOperator.find? operator.kind left.type right.type with
    | some o => return .binary left o right
    | none => do
      Reporting.report (.undefinedBinaryOperator operator.text left.type right.type) operator.span
      return left

/-- A call with arguments, or what stands in for that. -/
def Expr.called (identifier closing : Token) (arguments : List (Span × Bound.Expr)) :
    Resolving Bound.Expr := do
  match ← visibleFunction identifier.text with
  | none =>
    Reporting.report (.undefinedFunction identifier.text) identifier.span
    return .error
  | some f =>
    if arguments.length ≠ f.parameters.length then
      Reporting.report (.wrongArgumentCount identifier.text f.parameters.length arguments.length)
        (identifier.span.cover closing.span)
      return .error
    else
      let fit ← argumentsFit arguments f.parameters
      return if fit then .call f (arguments.map Prod.snd) else .error

/-- The operand is resolved first. -/
theorem Expr.resolve_unary (operator : Token) (operand : Expr) :
    (unary operator operand).resolve = operand.resolveValue >>= operated operator := by
  rw [Expr.resolve, Expr.resolveValue, bind_assoc]
  rfl

/-- The operands are resolved from left to right. -/
theorem Expr.resolve_binary (left : Expr) (operator : Token) (right : Expr) :
    (binary left operator right).resolve = (do
      let boundLeft ← left.resolveValue
      let boundRight ← right.resolveValue
      combined operator boundLeft boundRight) := by
  simp only [Expr.resolve, Expr.resolveValue, bind_assoc]
  rfl

/-- Parentheses resolve to what is inside. -/
theorem Expr.resolve_grouped (opening : Token) (inner : Expr) (closing : Token) :
    (grouped opening inner closing).resolve = inner.resolveValue := by
  rw [Expr.resolve, Expr.resolveValue]

/-- The arguments are resolved first. -/
theorem Expr.resolve_call (identifier opening : Token) (arguments : List Expr) (closing : Token) :
    (call identifier opening arguments closing).resolve =
      Expr.resolveAll arguments >>= called identifier closing := by
  rw [Expr.resolve]
  rfl

/-- Arguments are resolved from left to right. -/
theorem Expr.resolveAll_cons (e : Expr) (es : List Expr) :
    Expr.resolveAll (e :: es) = (do
      let bound ← e.resolveValue
      let rest ← Expr.resolveAll es
      return (e.span, bound) :: rest) := by
  rw [Expr.resolveAll, Expr.resolveValue, bind_assoc]

variable {P : Span → Prop} {Q : (α : Type) → Resolving α → Prop}

/-- Finding the variable of an assignment is made of the steps. -/
theorem Expr.closed_assignee (closed : Closed P Q) (name : String) (type : Ty) :
    Q _ (Expr.resolve.assignee name type) := by
  refine closed.bind (closed.visibleVariable name) fun s => ?_
  cases ((visibleVariable name).run s).value with
  | some v => exact closed.pure v
  | none =>
    refine closed.bind (closed.newVariable name type false) fun s => ?_
    exact closed.bind (closed.declare _) fun _ => closed.pure _

/-- Giving a value to a target is made of the steps. -/
theorem Expr.closed_assigned (closed : Closed P Q) (identifier : Token) {equals : Token}
    {span : Span} (assigns : P equals.span) (place : P span) (target : Variable)
    (bound : Bound.Expr) : Q _ (assigned identifier equals span target bound) := by
  have fits : Q _ (fitted span target bound) := by
    unfold fitted
    split
    · exact closed.reported _ place _
    · exact closed.pure _
  unfold assigned
  split
  · exact closed.bind (closed.report _ assigns) fun _ => fits
  · exact fits

/-- Arguments are resolved together with their places. -/
theorem Expr.places_resolveAll (es : List Expr) (s : Scoping) :
    ((Expr.resolveAll es).run s).value.map Prod.fst = es.map Expr.span := by
  induction es generalizing s with
  | nil => rfl
  | cons e es ih =>
    rw [Expr.resolveAll]
    simp [ih]

/-- An expression that must have a value is resolved by the steps if the expression
is. -/
theorem Expr.closed_resolveValue (closed : Closed P Q) {e : Expr} (part : Q _ e.resolve)
    (place : P e.span) : Q _ e.resolveValue :=
  closed.bind part fun _ => closed.asValue place _

/-- An expression that must be of a type is resolved by the steps if the expression
is. -/
theorem Expr.closed_resolveAs (closed : Closed P Q) (type : Ty) {e : Expr} (part : Q _ e.resolve)
    (place : P e.span) : Q _ (e.resolveAs type) :=
  closed.bind (Expr.closed_resolveValue closed part place) fun _ => closed.asType type place _

/-- An expression stands at a place of the sort if all of its nodes do. -/
theorem Expr.place_of_every {e : Expr} (places : e.node.Every fun node => P node.span) :
    P e.span := by
  simpa using places.self

/-- Arguments are resolved together with places of the sort if all of their nodes
stand at some. -/
theorem Expr.place_of_resolveAll {es : List Expr}
    (places : AllEvery (fun node => P node.span) (Expr.nodes es)) (s : Scoping) :
    ∀ argument ∈ ((Expr.resolveAll es).run s).value, P argument.1 := by
  have inside : ∀ span ∈ es.map Expr.span, P span := by
    clear s
    induction es with
    | nil => exact nofun
    | cons e es ih =>
      exact List.forall_mem_cons.2 ⟨Expr.place_of_every places.1, ih places.2⟩
  rw [← Expr.places_resolveAll es s] at inside
  exact fun argument hargument => inside _ (List.mem_map_of_mem hargument)

mutual

/-- Resolving an expression is made of the steps. -/
theorem Expr.closed_resolve (closed : Closed P Q) (e : Expr)
    (places : e.node.Every fun node => P node.span) : Q _ e.resolve := by
  cases e with
  | literal token => exact closed.pure _
  | name identifier =>
    obtain ⟨-, named, -⟩ := places
    rw [Expr.resolve]
    split
    · exact closed.pure _
    · refine closed.bind (closed.visibleVariable _) fun s => ?_
      split
      · exact closed.pure _
      · exact closed.reported _ named _
  | assignment identifier equals value =>
    obtain ⟨-, -, assigns, inside, -⟩ := places
    have part := value.closed_resolve closed inside
    have place := Expr.place_of_every inside
    rw [Expr.resolve_assignment]
    refine closed.bind (Expr.closed_resolveValue closed part place) fun s => ?_
    refine closed.bind (Expr.closed_assignee closed _ _) fun s' => ?_
    exact Expr.closed_assigned closed _ assigns place _ _
  | unary operator operand =>
    obtain ⟨-, operates, inside, -⟩ := places
    have part := operand.closed_resolve closed inside
    rw [Expr.resolve]
    refine closed.bind part fun s => closed.bind (closed.asValue (Expr.place_of_every inside) _) ?_
    intro s'
    split
    · exact closed.pure _
    · split
      · exact closed.pure _
      · exact closed.reported _ operates _
  | binary left operator right =>
    obtain ⟨-, inside, operates, inside', -⟩ := places
    have part := left.closed_resolve closed inside
    have part' := right.closed_resolve closed inside'
    rw [Expr.resolve]
    have value := closed.asValue (Expr.place_of_every inside)
    have value' := closed.asValue (Expr.place_of_every inside')
    refine closed.bind part fun s => closed.bind (value _) fun s' => ?_
    refine closed.bind part' fun s => closed.bind (value' _) fun s'' => ?_
    split
    · exact closed.pure _
    · split
      · exact closed.pure _
      · exact closed.reported _ operates _
  | grouped opening inner closing =>
    obtain ⟨-, -, inside, -⟩ := places
    have part := inner.closed_resolve closed inside
    rw [Expr.resolve]
    exact closed.bind part fun s => closed.asValue (Expr.place_of_every inside) _
  | call identifier opening arguments closing =>
    obtain ⟨whole, named, -, others⟩ := places
    have inside := ((allEvery_append _ _).1 others).1
    rw [Expr.resolve]
    refine closed.bind (Expr.closed_resolveAll closed arguments inside) fun s => ?_
    refine closed.bind (closed.visibleFunction _) fun s' => ?_
    split
    · exact closed.reported _ named _
    · split
      · exact closed.reported _ whole _
      · have fits := Expr.place_of_resolveAll inside s
        exact closed.bind (closed.argumentsFit fits _) fun s'' => closed.pure _

/-- Resolving a row of expressions is made of the steps. -/
theorem Expr.closed_resolveAll (closed : Closed P Q) (es : List Expr)
    (places : AllEvery (fun node => P node.span) (Expr.nodes es)) : Q _ (Expr.resolveAll es) := by
  cases es with
  | nil => exact closed.pure _
  | cons e es =>
    obtain ⟨inside, others⟩ := places
    have part := e.closed_resolve closed inside
    have parts := Expr.closed_resolveAll closed es others
    rw [Expr.resolveAll]
    refine closed.bind part fun s => closed.bind (closed.asValue (Expr.place_of_every inside) _) ?_
    exact fun s' => closed.bind parts fun s'' => closed.pure _

end

mutual

/-- Resolving a statement is made of the steps. -/
theorem Stmt.closed_resolve (closed : Closed P Q) (s : Stmt)
    (places : s.node.Every fun node => P node.span) : Q _ s.resolve := by
  -- What must be of a type is resolved at its place.
  have typed {type : Ty} {e : Expr} (inside : e.node.Every fun node => P node.span) :
      Q _ (e.resolveAs type) :=
    Expr.closed_resolveAs closed type (e.closed_resolve closed inside) (Expr.place_of_every inside)
  cases s with
  | block opening statements closing =>
    obtain ⟨-, -, others⟩ := places
    have parts := Stmt.closed_resolveAll closed statements ((allEvery_append _ _).1 others).1
    rw [Stmt.resolve]
    exact closed.bind (closed.inScope parts) fun _ => closed.pure _
  | declaration keyword identifier equals initializer =>
    obtain ⟨-, -, named, -, inside, -⟩ := places
    have part := initializer.closed_resolve closed inside
    rw [Stmt.resolve]
    refine closed.bind (Expr.closed_resolveValue closed part (Expr.place_of_every inside)) ?_
    refine fun s => closed.bind (closed.newVariable _ _ _) fun s' => ?_
    dsimp only
    split
    · exact closed.pure _
    · refine closed.bind (closed.declare _) fun s'' => ?_
      split
      · exact closed.pure _
      · exact closed.reported _ named _
  | ifThen keyword condition consequence =>
    obtain ⟨-, -, test, inside, -⟩ := places
    have part := closed.inScope (consequence.closed_resolve closed inside)
    rw [Stmt.resolve]
    exact closed.bind (typed test) fun _ => closed.bind part fun _ => closed.pure _
  | ifElse keyword condition consequence elseWord alternative =>
    obtain ⟨-, -, test, inside, -, inside', -⟩ := places
    have part := closed.inScope (consequence.closed_resolve closed inside)
    have part' := closed.inScope (alternative.closed_resolve closed inside')
    rw [Stmt.resolve]
    refine closed.bind (typed test) fun _ => closed.bind part fun _ => ?_
    exact closed.bind part' fun _ => closed.pure _
  | whileLoop keyword condition body =>
    obtain ⟨-, -, test, inside, -⟩ := places
    have part := closed.inScope (body.closed_resolve closed inside)
    rw [Stmt.resolve]
    exact closed.bind (typed test) fun _ => closed.bind part fun _ => closed.pure _
  | forLoop keyword identifier equals lower toWord upper body =>
    obtain ⟨-, -, -, -, first, -, last, inside, -⟩ := places
    have part := body.closed_resolve closed inside
    rw [Stmt.resolve]
    refine closed.bind (typed first) fun _ => closed.bind (typed last) fun _ => ?_
    refine closed.inScope (closed.bind (closed.newVariable _ _ _) fun s => ?_)
    dsimp only
    split
    · exact closed.bind part fun _ => closed.pure _
    · exact closed.bind (closed.declare _) fun _ => closed.bind part fun _ => closed.pure _
  | expression inner =>
    obtain ⟨-, inside, -⟩ := places
    rw [Stmt.resolve]
    exact closed.bind (inner.closed_resolve closed inside) fun _ => closed.pure _

/-- Resolving a row of statements is made of the steps. -/
theorem Stmt.closed_resolveAll (closed : Closed P Q) (ss : List Stmt)
    (places : AllEvery (fun node => P node.span) (Stmt.nodes ss)) : Q _ (Stmt.resolveAll ss) := by
  cases ss with
  | nil => exact closed.pure _
  | cons s ss =>
    have part := s.closed_resolve closed places.1
    have parts := Stmt.closed_resolveAll closed ss places.2
    rw [Stmt.resolveAll]
    exact closed.bind part fun _ => closed.bind parts fun _ => closed.pure _

end

end Syntax

end Scriptlet
