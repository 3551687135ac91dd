import Mathlib.Logic.Relation
import Scriptlet.Proofs.Scoping.Following

/-!
# The parts that are met while a tree is resolved

While a tree is resolved, its parts are met one after the other, each from the
state that the parts in front of it left behind. At every part the scopes hold
what can be seen from there. What is reported at a part is reported for the whole
tree, and what the part is resolved to is a part of what the whole tree is
resolved to, unless something takes its place.
-/

namespace Scriptlet

open Reporting Resolving Syntax

/-- A part of a tree: an expression, a statement or a row of them. -/
inductive Part where
  | expr (e : Expr)
  | exprs (es : List Expr)
  | stmt (s : Stmt)
  | stmts (ss : List Stmt)

/-- A part of a tree with what can be seen from it and the state from which it is
resolved. -/
structure Spot where
  part : Part
  view : View
  state : Scoping

namespace Spot

/-- The state inside a scope that was just opened. -/
def opened (s : Scoping) : Scoping := (openScope.run s).state

/-- The state in which the body of a counting loop is resolved: its scope is
open and holds the variable of the loop, unless that lacks a name. -/
def counting (identifier : Token) (s : Scoping) : Scoping :=
  let made := (newVariable identifier.text .int true).run (opened s)
  if identifier.isMissing then made.state else ((declare made.value).run made.state).state

/-- Resolving the first spot resolves the second one directly inside it. The
parts of a row, of a binary operator and of the compound statements are resolved
one behind the other. -/
inductive Inside : Spot → Spot → Prop where
  | value (identifier equals : Token) (value : Expr) (view : View) (s : Scoping) :
      Inside ⟨.expr (.assignment identifier equals value), view, s⟩ ⟨.expr value, view, s⟩
  | operand (operator : Token) (operand : Expr) (view : View) (s : Scoping) :
      Inside ⟨.expr (.unary operator operand), view, s⟩ ⟨.expr operand, view, s⟩
  | left (left right : Expr) (operator : Token) (view : View) (s : Scoping) :
      Inside ⟨.expr (.binary left operator right), view, s⟩ ⟨.expr left, view, s⟩
  | right (left right : Expr) (operator : Token) (view : View) (s : Scoping) :
      Inside ⟨.expr (.binary left operator right), view, s⟩
        ⟨.expr right, left.behind view, (left.resolveValue.run s).state⟩
  | grouped (opening closing : Token) (inner : Expr) (view : View) (s : Scoping) :
      Inside ⟨.expr (.grouped opening inner closing), view, s⟩ ⟨.expr inner, view, s⟩
  | arguments (identifier opening closing : Token) (arguments : List Expr) (view : View)
      (s : Scoping) :
      Inside ⟨.expr (.call identifier opening arguments closing), view, s⟩
        ⟨.exprs arguments, view, s⟩
  | firstExpr (e : Expr) (es : List Expr) (view : View) (s : Scoping) :
      Inside ⟨.exprs (e :: es), view, s⟩ ⟨.expr e, view, s⟩
  | otherExprs (e : Expr) (es : List Expr) (view : View) (s : Scoping) :
      Inside ⟨.exprs (e :: es), view, s⟩
        ⟨.exprs es, e.behind view, (e.resolveValue.run s).state⟩
  | block (opening closing : Token) (ss : List Stmt) (view : View) (s : Scoping) :
      Inside ⟨.stmt (.block opening ss closing), view, s⟩ ⟨.stmts ss, view.enter, opened s⟩
  | initializer (keyword identifier equals : Token) (initializer : Expr) (view : View)
      (s : Scoping) :
      Inside ⟨.stmt (.declaration keyword identifier equals initializer), view, s⟩
        ⟨.expr initializer, view, s⟩
  | thenCondition (keyword : Token) (condition : Expr) (consequence : Stmt) (view : View)
      (s : Scoping) :
      Inside ⟨.stmt (.ifThen keyword condition consequence), view, s⟩ ⟨.expr condition, view, s⟩
  | thenBranch (keyword : Token) (condition : Expr) (consequence : Stmt) (view : View)
      (s : Scoping) :
      Inside ⟨.stmt (.ifThen keyword condition consequence), view, s⟩
        ⟨.stmt consequence, (condition.behind view).enter,
          opened ((condition.resolveAs .bool).run s).state⟩
  | elseCondition (keyword elseWord : Token) (condition : Expr) (consequence alternative : Stmt)
      (view : View) (s : Scoping) :
      Inside ⟨.stmt (.ifElse keyword condition consequence elseWord alternative), view, s⟩
        ⟨.expr condition, view, s⟩
  | consequence (keyword elseWord : Token) (condition : Expr) (consequence alternative : Stmt)
      (view : View) (s : Scoping) :
      Inside ⟨.stmt (.ifElse keyword condition consequence elseWord alternative), view, s⟩
        ⟨.stmt consequence, (condition.behind view).enter,
          opened ((condition.resolveAs .bool).run s).state⟩
  | alternative (keyword elseWord : Token) (condition : Expr) (consequence alternative : Stmt)
      (view : View) (s : Scoping) :
      Inside ⟨.stmt (.ifElse keyword condition consequence elseWord alternative), view, s⟩
        ⟨.stmt alternative, ((condition.behind view).inside consequence.behind).enter,
          opened ((inScope consequence.resolve).run
            ((condition.resolveAs .bool).run s).state).state⟩
  | whileCondition (keyword : Token) (condition : Expr) (body : Stmt) (view : View)
      (s : Scoping) :
      Inside ⟨.stmt (.whileLoop keyword condition body), view, s⟩ ⟨.expr condition, view, s⟩
  | whileBody (keyword : Token) (condition : Expr) (body : Stmt) (view : View) (s : Scoping) :
      Inside ⟨.stmt (.whileLoop keyword condition body), view, s⟩
        ⟨.stmt body, (condition.behind view).enter,
          opened ((condition.resolveAs .bool).run s).state⟩
  | lower (keyword identifier equals toWord : Token) (lower upper : Expr) (body : Stmt)
      (view : View) (s : Scoping) :
      Inside ⟨.stmt (.forLoop keyword identifier equals lower toWord upper body), view, s⟩
        ⟨.expr lower, view, s⟩
  | upper (keyword identifier equals toWord : Token) (lower upper : Expr) (body : Stmt)
      (view : View) (s : Scoping) :
      Inside ⟨.stmt (.forLoop keyword identifier equals lower toWord upper body), view, s⟩
        ⟨.expr upper, lower.behind view, ((lower.resolveAs .int).run s).state⟩
  | forBody (keyword identifier equals toWord : Token) (lower upper : Expr) (body : Stmt)
      (view : View) (s : Scoping) :
      Inside ⟨.stmt (.forLoop keyword identifier equals lower toWord upper body), view, s⟩
        ⟨.stmt body, (upper.behind (lower.behind view)).enter.declareAt identifier,
          counting identifier
            ((upper.resolveAs .int).run ((lower.resolveAs .int).run s).state).state⟩
  | inner (inner : Expr) (view : View) (s : Scoping) :
      Inside ⟨.stmt (.expression inner), view, s⟩ ⟨.expr inner, view, s⟩
  | firstStmt (first : Stmt) (ss : List Stmt) (view : View) (s : Scoping) :
      Inside ⟨.stmts (first :: ss), view, s⟩ ⟨.stmt first, view, s⟩
  | otherStmts (first : Stmt) (ss : List Stmt) (view : View) (s : Scoping) :
      Inside ⟨.stmts (first :: ss), view, s⟩
        ⟨.stmts ss, first.behind view, (first.resolve.run s).state⟩

/-- Resolving the first spot resolves the second one somewhere inside it. -/
abbrev Meets : Spot → Spot → Prop := Relation.ReflTransGen Inside

/-- The open scopes hold the variables of the declarations that can be seen, and
the identities introduced so far, the given ones first, are all different. -/
structure Sound (earlier : List Nat) (spot : Spot) : Prop where
  shows : ∃ here outer, spot.state = Frame.scoping here outer ∧ spot.view.Shows here outer
  distinct : spot.view.Distinct earlier

variable {earlier : List Nat} {view view' : View} {s : Scoping} {part part' : Part}

/-- Behind a computation that follows the view, another part is met in the same scope. -/
theorem Sound.behind {α : Type} {m : Resolving α}
    {reports : List Diagnostic} (h : Sound earlier ⟨part, view, s⟩)
    (follows : ∀ here outer, FollowsAt view here outer m view' reports)
    (distinct : view'.Distinct earlier) : Sound earlier ⟨part', view', (m.run s).state⟩ := by
  obtain ⟨here, outer, hstate, shows⟩ := h.shows
  obtain rfl : s = here.scoping outer := hstate
  obtain ⟨there, hthere, shows', -⟩ := follows here outer shows
  exact ⟨⟨there, outer, hthere, shows'⟩, distinct⟩

/-- A part is met in a scope just opened. -/
theorem Sound.opened (h : Sound earlier ⟨part, view, s⟩) :
    Sound earlier ⟨part', view.enter, opened s⟩ := by
  obtain ⟨here, outer, hstate, shows⟩ := h.shows
  obtain rfl : s = here.scoping outer := hstate
  exact ⟨⟨.fresh here.nextId, here.rows outer, by simp [Spot.opened], shows.enter⟩,
    h.distinct.enter⟩

/-- The body of a counting loop is met behind its variable. -/
theorem Sound.counting (h : Sound earlier ⟨part, view, s⟩) (identifier : Token) :
    Sound earlier ⟨part', view.enter.declareAt identifier, counting identifier s⟩ := by
  have inside : Sound earlier ⟨part', view.enter, Spot.opened s⟩ := h.opened
  obtain ⟨here, outer, hstate, shows⟩ := inside.shows
  have hopened : Spot.opened s = here.scoping outer := hstate
  have follows : FollowsAt view.enter here outer (do
      let v ← newVariable identifier.text .int true
      if identifier.isMissing then pure () else (do let _ ← declare v; pure ()))
      (view.enter.declareAt identifier) [] := by
    refine followsAt_newVariable ?_
    rw [View.declareAt]
    split
    · exact (quiet_pure _).followsAt
    · exact followsAt_declare fun declared there => (quiet_pure _).followsAt
  obtain ⟨there, hthere, shows', -⟩ := follows shows
  refine ⟨⟨there, outer, ?_, shows'⟩, inside.distinct.declareAt identifier⟩
  rw [← hthere, Spot.counting, hopened]
  by_cases missing : identifier.isMissing = true
  · simp [missing]
  · simp [missing]

/-- The parts of a tree are met soundly if the tree is. -/
theorem Inside.sound {spot spot' : Spot} (h : Inside spot spot') (sound : spot.Sound earlier) :
    spot'.Sound earlier := by
  have distinct := sound.distinct
  cases h with
  | value | operand | left | grouped | arguments | firstExpr | initializer | thenCondition
  | elseCondition | whileCondition | lower | inner | firstStmt => exact ⟨sound.shows, distinct⟩
  | right left right operator view s =>
    exact sound.behind (fun here _ => left.followsAt_resolveValue view here)
      (left.distinct_behind distinct)
  | otherExprs e es view s =>
    exact sound.behind (fun here _ => e.followsAt_resolveValue view here)
      (e.distinct_behind distinct)
  | block => exact sound.opened
  | thenBranch keyword condition consequence view s =>
    have tested : Sound earlier ⟨.stmt consequence, condition.behind view, _⟩ :=
      sound.behind (fun here _ => condition.followsAt_resolveAs .bool view here)
        (condition.distinct_behind distinct)
    exact tested.opened
  | consequence keyword elseWord condition consequence alternative view s =>
    have tested : Sound earlier ⟨.stmt consequence, condition.behind view, _⟩ :=
      sound.behind (fun here _ => condition.followsAt_resolveAs .bool view here)
        (condition.distinct_behind distinct)
    exact tested.opened
  | alternative keyword elseWord condition consequence alternative view s =>
    have tested : Sound earlier ⟨.stmt consequence, condition.behind view, _⟩ :=
      sound.behind (fun here _ => condition.followsAt_resolveAs .bool view here)
        (condition.distinct_behind distinct)
    have second : Sound earlier
        ⟨.stmt alternative, (condition.behind view).inside consequence.behind, _⟩ :=
      tested.behind
        (fun here outer => (consequence.followsAt_resolve _ _ (here.rows outer)).inScope)
        (tested.distinct.inside fun inner hinner => consequence.distinct_behind hinner)
    exact second.opened
  | whileBody keyword condition body view s =>
    have tested : Sound earlier ⟨.stmt body, condition.behind view, _⟩ :=
      sound.behind (fun here _ => condition.followsAt_resolveAs .bool view here)
        (condition.distinct_behind distinct)
    exact tested.opened
  | upper keyword identifier equals toWord lower upper body view s =>
    exact sound.behind (fun here _ => lower.followsAt_resolveAs .int view here)
      (lower.distinct_behind distinct)
  | forBody keyword identifier equals toWord lower upper body view s =>
    have first : Sound earlier ⟨.expr upper, lower.behind view, _⟩ :=
      sound.behind (fun here _ => lower.followsAt_resolveAs .int view here)
        (lower.distinct_behind distinct)
    have last : Sound earlier ⟨.stmt body, upper.behind (lower.behind view), _⟩ :=
      first.behind (fun here _ => upper.followsAt_resolveAs .int _ here)
        (upper.distinct_behind first.distinct)
    exact last.counting identifier
  | otherStmts first ss view s =>
    exact sound.behind (fun here outer => first.followsAt_resolve view here outer)
      (first.distinct_behind distinct)

/-- Everything inside a spot is met soundly if the spot is. -/
theorem Meets.sound {spot spot' : Spot} (h : spot.Meets spot') (sound : spot.Sound earlier) :
    spot'.Sound earlier := by
  induction h with
  | refl => exact sound
  | tail _ inside ih => exact inside.sound ih

/-- What is reported where the part is resolved. -/
def reports (spot : Spot) : List Diagnostic :=
  match spot.part with
  | .expr e => (e.resolve.run spot.state).diagnostics
  | .exprs es => ((Expr.resolveAll es).run spot.state).diagnostics
  | .stmt s => (s.resolve.run spot.state).diagnostics
  | .stmts ss => ((Stmt.resolveAll ss).run spot.state).diagnostics

section

variable {α β : Type} {m : Resolving α} {f : α → Resolving β} {ds : List Diagnostic}

/-- What the first part of a sequence reports is reported. -/
theorem infix_bind_first (h : ds <:+: (m.run s).diagnostics) :
    ds <:+: ((m >>= f).run s).diagnostics := h.trans (List.prefix_append _ _).isInfix

/-- What the second part of a sequence reports is reported. -/
theorem infix_bind_second (h : ds <:+: ((f (m.run s).value).run (m.run s).state).diagnostics) :
    ds <:+: ((m >>= f).run s).diagnostics := h.trans (List.suffix_append _ _).isInfix

/-- What is reported in a scope of its own is reported. -/
theorem infix_inScope (h : ds <:+: (m.run (Spot.opened s)).diagnostics) :
    ds <:+: ((inScope m).run s).diagnostics := infix_bind_second (infix_bind_first h)

end

/-- What is reported inside a spot is reported there. -/
theorem Inside.reports {spot spot' : Spot} (h : Inside spot spot') :
    spot'.reports <:+: spot.reports := by
  have self (ds : List Diagnostic) : ds <:+: ds := List.infix_refl ds
  cases h with
  | value | operand | left | grouped | arguments | firstExpr | inner | firstStmt =>
    exact infix_bind_first (self _)
  | initializer => exact infix_bind_first (infix_bind_first (self _))
  | thenCondition | elseCondition | whileCondition | lower =>
    exact infix_bind_first (infix_bind_first (infix_bind_first (self _)))
  | right | otherExprs => exact infix_bind_second (infix_bind_second (infix_bind_first (self _)))
  | otherStmts => exact infix_bind_second (infix_bind_first (self _))
  | block => exact infix_bind_first (infix_inScope (self _))
  | thenBranch | consequence | whileBody =>
    exact infix_bind_second (infix_bind_first (infix_inScope (self _)))
  | alternative =>
    exact infix_bind_second (infix_bind_second (infix_bind_first (infix_inScope (self _))))
  | upper =>
    exact infix_bind_second (infix_bind_first (infix_bind_first (infix_bind_first (self _))))
  | forBody =>
    refine infix_bind_second (infix_bind_second (infix_inScope (infix_bind_second ?_)))
    dsimp only [Spot.counting]
    split
    · exact infix_bind_first (self _)
    · exact infix_bind_second (infix_bind_first (self _))

/-- What is reported anywhere inside a spot is reported there. -/
theorem Meets.reports {spot spot' : Spot} (h : spot.Meets spot') :
    spot'.reports <:+: spot.reports := by
  induction h with
  | refl => exact List.infix_refl _
  | tail _ inside ih => exact inside.reports.trans ih
end Spot

/-! ### Parts of bound trees -/

namespace Bound

/-- A part of a bound tree: an expression, a statement or a row of them. -/
inductive Part where
  | expr (e : Expr)
  | exprs (es : List Expr)
  | stmt (s : Stmt)
  | stmts (ss : List Stmt)

namespace Part

/-- The parts directly inside a part. -/
@[simp] def children : Part → List Part
  | .expr (.assignment _ value) => [.expr value]
  | .expr (.unary _ operand) => [.expr operand]
  | .expr (.binary left _ right) => [.expr left, .expr right]
  | .expr (.call _ arguments) => [.exprs arguments]
  | .exprs (e :: es) => [.expr e, .exprs es]
  | .stmt (.block statements) => [.stmts statements]
  | .stmt (.declaration _ initializer) => [.expr initializer]
  | .stmt (.expression inner) => [.expr inner]
  | .stmt (.ifThen condition consequence) => [.expr condition, .stmt consequence]
  | .stmt (.ifElse condition consequence alternative) =>
    [.expr condition, .stmt consequence, .stmt alternative]
  | .stmt (.whileLoop condition body) => [.expr condition, .stmt body]
  | .stmt (.forLoop _ lower upper body) => [.expr lower, .expr upper, .stmt body]
  | .stmt (.gotoIf _ condition _) => [.expr condition]
  | .stmts (s :: ss) => [.stmt s, .stmts ss]
  | _ => []

/-- The second part is the first one or somewhere inside it. -/
abbrev Includes : Part → Part → Prop :=
  Relation.ReflTransGen fun whole part => part ∈ whole.children

end Part

end Bound

namespace Spot

/-- What the part is resolved to. -/
def value (spot : Spot) : Bound.Part :=
  match spot.part with
  | .expr e => .expr (e.resolve.run spot.state).value
  | .exprs es => .exprs (((Expr.resolveAll es).run spot.state).value.map Prod.snd)
  | .stmt s => .stmt (s.resolve.run spot.state).value
  | .stmts ss => .stmts ((Stmt.resolveAll ss).run spot.state).value

@[simp] theorem value_expr (e : Expr) (view : View) (s : Scoping) :
    value ⟨.expr e, view, s⟩ = .expr (e.resolve.run s).value := rfl

@[simp] theorem value_stmt (statement : Stmt) (view : View) (s : Scoping) :
    value ⟨.stmt statement, view, s⟩ = .stmt (statement.resolve.run s).value := rfl

/-- Something takes the place of what is inside a spot: the part has no meaning, a part inside
it is replaced by one without, or its operator is not defined and only the left operand
is kept. -/
inductive Replaced (spot : Spot) : Prop
  | whole (h : spot.value = .expr .error)
  | inside (h : .expr .error ∈ spot.value.children)
  | undefined {left right : Expr} {operator : Token} {leftType rightType : Ty}
      (h : spot.part = .expr (.binary left operator right))
      (reported : ⟨.undefinedBinaryOperator operator.text leftType rightType, operator.span⟩ ∈
        spot.reports)

/-- An expression that must have a value is kept or has no meaning. -/
theorem value_resolveValue (e : Expr) (s : Scoping) :
    (e.resolveValue.run s).value = (e.resolve.run s).value ∨
      (e.resolveValue.run s).value = .error := by
  rw [Expr.resolveValue, run_bind, asValue]
  split
  · exact .inr rfl
  · exact .inl rfl

/-- An expression that must be of a type is kept or has no meaning. -/
theorem value_resolveAs (type : Ty) (e : Expr) (s : Scoping) :
    ((e.resolveAs type).run s).value = (e.resolve.run s).value ∨
      ((e.resolveAs type).run s).value = .error := by
  rw [Expr.resolveAs, run_bind, asType]
  split
  · exact .inr rfl
  · exact value_resolveValue e s

/-- The value of an assignment is one with the value given, or it has no meaning. -/
theorem value_assignment (identifier equals : Token) (e : Expr) (view : View) (s : Scoping) :
    let whole : Spot := ⟨.expr (.assignment identifier equals e), view, s⟩
    whole.value.children = [.expr (e.resolveValue.run s).value] ∨ whole.value = .expr .error := by
  dsimp only
  rw [value_expr, Expr.resolve_assignment, run_bind, run_bind]
  rcases Expr.value_assigned identifier equals e.span _ _ _ with same | ⟨none, -⟩
  · exact .inl (by rw [same]; rfl)
  · exact .inr (by rw [none])

/-- The value of an operator in front of an operand is one with the operand or the operand
itself, or it has no meaning. -/
theorem value_unary (operator : Token) (e : Expr) (view : View) (s : Scoping) :
    let whole : Spot := ⟨.expr (.unary operator e), view, s⟩
    let operand := (e.resolveValue.run s).value
    whole.value.children = [.expr operand] ∨ whole.value = .expr operand ∨
      whole.value = .expr .error := by
  dsimp only
  rw [value_expr, Expr.resolve_unary, run_bind, Expr.operated]
  split
  · exact .inr (.inr rfl)
  · split
    · exact .inl rfl
    · exact .inr (.inl rfl)

/-- The value of an operator between operands is one with both of them, or it has no meaning,
or it is the left operand, and the operator is reported. -/
theorem value_binary (left right : Expr) (operator : Token) (view : View) (s : Scoping) :
    let whole : Spot := ⟨.expr (.binary left operator right), view, s⟩
    let first := left.resolveValue.run s
    let second := right.resolveValue.run first.state
    whole.value.children = [.expr first.value, .expr second.value] ∨
      whole.value = .expr .error ∨ whole.value = .expr first.value ∧ whole.Replaced := by
  intro whole first second
  have value : whole.value =
      .expr ((Expr.combined operator first.value second.value).run second.state).value := by
    rw [value_expr, Expr.resolve_binary]
    rfl
  have reports : whole.reports = first.diagnostics ++ (second.diagnostics ++
      ((Expr.combined operator first.value second.value).run second.state).diagnostics) := by
    show ((Expr.binary left operator right).resolve.run s).diagnostics = _
    rw [Expr.resolve_binary]
    rfl
  unfold Expr.combined at value reports
  by_cases faulty : first.value.type = .error ∨ second.value.type = .error
  · rw [if_pos faulty] at value
    exact .inr (.inl value)
  · rw [if_neg faulty] at value reports
    cases defined : BinaryOperator.find? operator.kind first.value.type second.value.type with
    | some o =>
      rw [defined] at value
      exact .inl (by rw [value]; rfl)
    | none =>
      rw [defined] at value reports
      have reported : ⟨.undefinedBinaryOperator operator.text first.value.type second.value.type,
          operator.span⟩ ∈ whole.reports := by
        rw [reports]
        exact List.mem_append_right _ (List.mem_append_right _ List.mem_cons_self)
      exact .inr (.inr ⟨value, .undefined rfl reported⟩)

/-- The value of a call is one with the values of the arguments, or it has no meaning. -/
theorem value_call (identifier opening closing : Token) (arguments : List Expr) (view : View)
    (s : Scoping) :
    let whole : Spot := ⟨.expr (.call identifier opening arguments closing), view, s⟩
    whole.value.children = [value ⟨.exprs arguments, view, s⟩] ∨ whole.value = .expr .error := by
  dsimp only
  rw [value_expr, Expr.resolve_call, run_bind, Expr.called, run_bind]
  split
  · exact .inr rfl
  · split
    · exact .inr rfl
    · rw [run_bind, run_pure]
      dsimp only
      split
      · exact .inl rfl
      · exact .inr rfl

/-- The value of a declaration is one with the value of its initializer. -/
theorem value_declaration (keyword identifier equals : Token) (initializer : Expr) (view : View)
    (s : Scoping) :
    (value ⟨.stmt (.declaration keyword identifier equals initializer), view, s⟩).children =
      [.expr (initializer.resolveValue.run s).value] := by
  by_cases missing : identifier.isMissing = true
  · simp [Stmt.resolve, missing]
  · simp only [value_stmt, Stmt.resolve, run_bind, if_neg missing]
    split <;> rfl

/-- The value of a branch is one with the values of its condition and of its consequence. -/
theorem value_ifThen (keyword : Token) (condition : Expr) (consequence : Stmt) (view : View)
    (s : Scoping) :
    let test := (condition.resolveAs .bool).run s
    (value ⟨.stmt (.ifThen keyword condition consequence), view, s⟩).children =
      [.expr test.value, .stmt (consequence.resolve.run (opened test.state)).value] := by
  rw [value_stmt, Stmt.resolve]
  rfl

/-- The value of a branch with an alternative is one with the values of its three parts. -/
theorem value_ifElse (keyword elseWord : Token) (condition : Expr)
    (consequence alternative : Stmt) (view : View) (s : Scoping) :
    let test := (condition.resolveAs .bool).run s
    let branch := (inScope consequence.resolve).run test.state
    (value ⟨.stmt (.ifElse keyword condition consequence elseWord alternative), view,
        s⟩).children =
      [.expr test.value, .stmt branch.value,
        .stmt (alternative.resolve.run (opened branch.state)).value] := by
  rw [value_stmt, Stmt.resolve]
  rfl

/-- The value of a loop is one with the values of its condition and of its body. -/
theorem value_whileLoop (keyword : Token) (condition : Expr) (body : Stmt) (view : View)
    (s : Scoping) :
    let test := (condition.resolveAs .bool).run s
    (value ⟨.stmt (.whileLoop keyword condition body), view, s⟩).children =
      [.expr test.value, .stmt (body.resolve.run (opened test.state)).value] := by
  rw [value_stmt, Stmt.resolve]
  rfl

/-- The value of a counting loop is one with the values of its bounds and of its body. -/
theorem value_forLoop (keyword identifier equals toWord : Token) (lower upper : Expr)
    (body : Stmt) (view : View) (s : Scoping) :
    let first := (lower.resolveAs .int).run s
    let last := (upper.resolveAs .int).run first.state
    (value ⟨.stmt (.forLoop keyword identifier equals lower toWord upper body), view,
        s⟩).children =
      [.expr first.value, .expr last.value,
        .stmt (body.resolve.run (counting identifier last.state)).value] := by
  unfold counting
  by_cases missing : identifier.isMissing = true
  · simp [Stmt.resolve, inScope, opened, missing]
  · simp [Stmt.resolve, inScope, opened, missing]

variable {spot spot' : Spot}

/-- An expression that is kept or has no meaning is the value, or the value has none. -/
theorem includes_of_eq {e bound : Bound.Expr} (kept : bound = e ∨ bound = .error)
    (same : spot.value = .expr bound) : spot.value.Includes (.expr e) ∨ spot.Replaced := by
  rcases kept with rfl | rfl
  · exact .inl (same ▸ .refl)
  · exact .inr (.whole same)

/-- An expression that is kept or has no meaning stands directly in a value. -/
theorem includes_of_child {e bound : Bound.Expr} (kept : bound = e ∨ bound = .error)
    (child : .expr bound ∈ spot.value.children) :
    spot.value.Includes (.expr e) ∨ spot.Replaced := by
  rcases kept with rfl | rfl
  · exact .inl (.single child)
  · exact .inr (.inside child)

/-- What a part directly inside a spot is resolved to is a part of what the spot is resolved
to, unless something takes its place. -/
theorem Inside.includes (h : Inside spot spot') :
    spot.value.Includes spot'.value ∨ spot.Replaced := by
  cases h with
  | value identifier equals e view s =>
    rcases value_assignment identifier equals e view s with children | none
    · exact includes_of_child (value_resolveValue e s) (children ▸ List.mem_cons_self)
    · exact .inr (.whole none)
  | operand operator e view s =>
    have kept := value_resolveValue e s
    rcases value_unary operator e view s with children | same | none
    · exact includes_of_child kept (children ▸ List.mem_cons_self)
    · exact includes_of_eq kept same
    · exact .inr (.whole none)
  | left left right operator view s =>
    have kept := value_resolveValue left s
    rcases value_binary left right operator view s with children | none | ⟨same, -⟩
    · exact includes_of_child kept (children ▸ List.mem_cons_self)
    · exact .inr (.whole none)
    · exact includes_of_eq kept same
  | right left right operator view s =>
    rcases value_binary left right operator view s with children | none | ⟨-, replaced⟩
    · exact includes_of_child (value_resolveValue right _)
        (children ▸ List.mem_cons_of_mem _ List.mem_cons_self)
    · exact .inr (.whole none)
    · exact .inr replaced
  | grouped opening closing e view s =>
    refine includes_of_eq (value_resolveValue e s) ?_
    rw [value_expr, Expr.resolve_grouped]
  | arguments identifier opening closing arguments view s =>
    rcases value_call identifier opening closing arguments view s with children | none
    · exact .inl (.single (children ▸ List.mem_cons_self))
    · exact .inr (.whole none)
  | firstExpr e es view s =>
    exact includes_of_child (value_resolveValue e s) List.mem_cons_self
  | initializer keyword identifier equals e view s =>
    exact includes_of_child (value_resolveValue e s)
      (value_declaration keyword identifier equals e view s ▸ List.mem_cons_self)
  | block | inner | firstStmt => exact .inl (.single List.mem_cons_self)
  | otherExprs | otherStmts =>
    exact .inl (.single (List.mem_cons_of_mem _ List.mem_cons_self))
  | thenCondition keyword condition consequence view s =>
    refine includes_of_child (value_resolveAs .bool condition s) ?_
    rw [value_ifThen]
    exact List.mem_cons_self
  | thenBranch keyword condition consequence view s =>
    refine .inl (.single ?_)
    rw [value_ifThen]
    exact List.mem_cons_of_mem _ List.mem_cons_self
  | elseCondition keyword elseWord condition consequence alternative view s =>
    refine includes_of_child (value_resolveAs .bool condition s) ?_
    rw [value_ifElse]
    exact List.mem_cons_self
  | consequence keyword elseWord condition consequence alternative view s =>
    refine .inl (.single ?_)
    rw [value_ifElse]
    exact List.mem_cons_of_mem _ List.mem_cons_self
  | alternative keyword elseWord condition consequence alternative view s =>
    refine .inl (.single ?_)
    rw [value_ifElse]
    exact List.mem_cons_of_mem _ (List.mem_cons_of_mem _ List.mem_cons_self)
  | whileCondition keyword condition body view s =>
    refine includes_of_child (value_resolveAs .bool condition s) ?_
    rw [value_whileLoop]
    exact List.mem_cons_self
  | whileBody keyword condition body view s =>
    refine .inl (.single ?_)
    rw [value_whileLoop]
    exact List.mem_cons_of_mem _ List.mem_cons_self
  | lower keyword identifier equals toWord lower upper body view s =>
    refine includes_of_child (value_resolveAs .int lower s) ?_
    rw [value_forLoop]
    exact List.mem_cons_self
  | upper keyword identifier equals toWord lower upper body view s =>
    refine includes_of_child (value_resolveAs .int upper _) ?_
    rw [value_forLoop]
    exact List.mem_cons_of_mem _ List.mem_cons_self
  | forBody keyword identifier equals toWord lower upper body view s =>
    refine .inl (.single ?_)
    rw [value_forLoop]
    exact List.mem_cons_of_mem _ (List.mem_cons_of_mem _ List.mem_cons_self)

/-- What a part anywhere inside a spot is resolved to is a part of what the spot is resolved to,
unless something takes the place of a part around it whose value is kept. -/
theorem Meets.includes (h : spot.Meets spot') :
    spot.value.Includes spot'.value ∨ ∃ around, spot.Meets around ∧ around.Meets spot' ∧
      spot.value.Includes around.value ∧ around.Replaced := by
  induction h with
  | refl => exact .inl .refl
  | @tail around inner meets inside ih =>
    rcases ih with kept | ⟨outer, meets', meets'', kept, replaced⟩
    · rcases inside.includes with directly | replaced
      · exact .inl (kept.trans directly)
      · exact .inr ⟨around, meets, .single inside, kept, replaced⟩
    · exact .inr ⟨outer, meets', meets''.tail inside, kept, replaced⟩

end Spot

end Scriptlet
