import Scriptlet.Proofs.Cutting.Places
import Scriptlet.Proofs.Replacing.Resolving

/-!
# Places show in reports only

A tree is resolved to the same whatever the places of its tokens are: the bound tree,
the scopes behind it and the problems that are reported do not depend on them. Unlike
the rules, this covers trees with problems and with missing tokens as well.
-/

namespace Scriptlet

@[simp] theorem Token.kind_unplaced (token : Token) : token.unplaced.kind = token.kind := rfl

@[simp] theorem Token.isMissing_unplaced (token : Token) :
    token.unplaced.isMissing = token.isMissing := rfl

/-- A run is given by its result, its state and its reports. -/
theorem Reporting.run_eq {σ α : Type} {m : Reporting σ α} {s t : σ} {a : α}
    {ds : List Diagnostic} (value : (m.run s).value = a) (state : (m.run s).state = t)
    (reports : (m.run s).diagnostics = ds) : m.run s = ⟨a, t, ds⟩ := by
  rw [← value, ← state, ← reports]

namespace Resolving

open Reporting

/-- The same problems are reported, if at other places. -/
def SameProblems (xs ys : List Diagnostic) : Prop :=
  ys.map Diagnostic.problem = xs.map Diagnostic.problem

theorem joins_sameProblems : Joins SameProblems where
  nil := rfl
  same _ := rfl
  append first second := by
    rw [SameProblems, List.map_append, List.map_append, first, second]

/-- Two computations do the same, up to the places of what they report. -/
def SameUpToPlaces {α : Type} (m m' : Resolving α) : Prop := Tracks Eq SameProblems m id m'

namespace SameUpToPlaces

variable {α β : Type} {m m' : Resolving α}

theorem refl (m : Resolving α) : SameUpToPlaces m m := by
  rintro s _ rfl
  exact ⟨rfl, rfl, rfl⟩

theorem bind {f f' : α → Resolving β} (first : SameUpToPlaces m m')
    (second : ∀ a, SameUpToPlaces (f a) (f' a)) : SameUpToPlaces (m >>= f) (m' >>= f') :=
  joins_sameProblems.bind first second

/-- Problems are reported at any places. -/
theorem report (problem : Problem) (span span' : Span) :
    SameUpToPlaces (Reporting.report problem span) (Reporting.report problem span') := by
  rintro s _ rfl
  exact ⟨rfl, rfl, rfl⟩

/-- A report is followed by a bare result. -/
theorem reported (problem : Problem) (span span' : Span) (a : α) :
    SameUpToPlaces (Reporting.report problem span >>= fun _ => pure a)
      (Reporting.report problem span' >>= fun _ => pure a) :=
  (report problem span span').bind fun _ => refl _

theorem inScope (part : SameUpToPlaces m m') :
    SameUpToPlaces (Resolving.inScope m) (Resolving.inScope m') :=
  (refl _).bind fun _ => part.bind fun _ => refl _

theorem asValue (span span' : Span) (e : Bound.Expr) :
    SameUpToPlaces (Resolving.asValue span e) (Resolving.asValue span' e) := by
  unfold Resolving.asValue
  split
  · exact reported _ _ _ _
  · exact refl _

theorem asType (type : Ty) (span span' : Span) (e : Bound.Expr) :
    SameUpToPlaces (Resolving.asType type span e) (Resolving.asType type span' e) := by
  unfold Resolving.asType
  split
  · exact reported _ _ _ _
  · exact refl _

end SameUpToPlaces

/-- An argument without its place. -/
def unplacedArgument (argument : Span × Bound.Expr) : Span × Bound.Expr := (.empty 0, argument.2)

/-- Whether arguments fit does not depend on their places. -/
theorem SameUpToPlaces.argumentsFit (arguments : List (Span × Bound.Expr))
    (parameters : List Parameter) :
    SameUpToPlaces (argumentsFit arguments parameters)
      (argumentsFit (arguments.map unplacedArgument) parameters) := by
  induction arguments generalizing parameters with
  | nil => exact refl _
  | cons argument arguments ih =>
    cases parameters with
    | nil => exact refl _
    | cons parameter parameters =>
      rw [List.map_cons, unplacedArgument, Resolving.argumentsFit, Resolving.argumentsFit]
      split
      · exact (report _ _ _).bind fun _ => (ih parameters).bind fun _ => refl _
      · exact (ih parameters).bind fun _ => refl _

end Resolving

namespace Syntax

open Resolving

/-- Without the places of its tokens, an expression has none. -/
theorem Expr.span_unplaced (e : Expr) : e.unplaced.span = .empty 0 := by
  cases e with
  | literal | name | grouped | call => rfl
  | assignment identifier equals value => rw [unplaced, span, value.span_unplaced]; rfl
  | unary operator operand => rw [unplaced, span, operand.span_unplaced]; rfl
  | binary left operator right =>
    rw [unplaced, span, left.span_unplaced, right.span_unplaced]
    rfl

/-- Whether a value may be given to a target does not depend on places. -/
theorem Expr.sameUpToPlaces_assigned (identifier equals : Token) (span : Span)
    (target : Variable) (bound : Bound.Expr) :
    SameUpToPlaces (assigned identifier equals span target bound)
      (assigned identifier.unplaced equals.unplaced (.empty 0) target bound) := by
  have fits : SameUpToPlaces (fitted span target bound) (fitted (.empty 0) target bound) := by
    unfold fitted
    split
    · exact .reported _ _ _ _
    · exact .refl _
  unfold assigned
  split
  · exact (SameUpToPlaces.report _ _ _).bind fun _ => fits
  · exact fits

mutual

/-- An expression is resolved to the same without places. -/
theorem Expr.sameUpToPlaces (e : Expr) : SameUpToPlaces e.resolve e.unplaced.resolve := by
  cases e with
  | literal token => exact .refl _
  | name identifier =>
    rw [unplaced, Expr.resolve, Expr.resolve, Token.isMissing_unplaced]
    split
    · exact .refl _
    · refine (SameUpToPlaces.refl _).bind fun visible => ?_
      cases visible with
      | some v => exact .refl _
      | none => exact .reported _ _ _ _
  | assignment identifier equals value =>
    rw [unplaced, Expr.resolve_assignment, Expr.resolve_assignment, value.span_unplaced]
    have part := value.sameUpToPlaces.bind fun bound => .asValue value.span (.empty 0) bound
    rw [Expr.resolveValue, Expr.resolveValue, value.span_unplaced]
    refine part.bind fun bound => (SameUpToPlaces.refl _).bind fun target => ?_
    exact Expr.sameUpToPlaces_assigned _ _ _ _ _
  | unary operator operand =>
    rw [unplaced, Expr.resolve, Expr.resolve, Token.kind_unplaced]
    refine operand.sameUpToPlaces.bind fun part => (SameUpToPlaces.asValue _ _ part).bind ?_
    intro bound
    split
    · exact .refl _
    · split
      · exact .refl _
      · exact .reported _ _ _ _
  | binary left operator right =>
    rw [unplaced, Expr.resolve, Expr.resolve, Token.kind_unplaced]
    refine left.sameUpToPlaces.bind fun part => (SameUpToPlaces.asValue _ _ part).bind ?_
    intro boundLeft
    refine right.sameUpToPlaces.bind fun part' => (SameUpToPlaces.asValue _ _ part').bind ?_
    intro boundRight
    split
    · exact .refl _
    · split
      · exact .refl _
      · exact .reported _ _ _ _
  | grouped opening inner closing =>
    rw [unplaced, Expr.resolve, Expr.resolve]
    exact inner.sameUpToPlaces.bind fun bound => .asValue _ _ bound
  | call identifier opening arguments closing =>
    rw [unplaced, Expr.resolve, Expr.resolve]
    refine joins_sameProblems.bind (Expr.tracks_unplacedAll arguments) fun bound => ?_
    refine (SameUpToPlaces.refl _).bind fun visible => ?_
    cases visible with
    | none => exact .reported _ _ _ _
    | some function =>
      dsimp only
      rw [List.length_map]
      split
      · exact .reported _ _ _ _
      · have values : (bound.map unplacedArgument).map Prod.snd = bound.map Prod.snd := by
          rw [List.map_map]
          rfl
        rw [values]
        exact (SameUpToPlaces.argumentsFit _ _).bind fun fit => .refl _

/-- A row of expressions is resolved to the same without places. -/
theorem Expr.tracks_unplacedAll (es : List Expr) :
    Tracks Eq SameProblems (Expr.resolveAll es) (List.map unplacedArgument)
      (Expr.resolveAll (Expr.unplacedAll es)) := by
  have joins := joins_sameProblems
  cases es with
  | nil => exact joins.pure _ []
  | cons e es =>
    rw [Expr.unplacedAll, Expr.resolveAll, Expr.resolveAll, e.span_unplaced]
    refine joins.bind e.sameUpToPlaces fun part => ?_
    refine joins.bind (SameUpToPlaces.asValue _ _ part) fun bound => ?_
    refine joins.bind (Expr.tracks_unplacedAll es) fun rest => ?_
    exact joins.pure (List.map unplacedArgument) ((e.span, bound) :: rest)

end

/-- An expression that must have a value is resolved to the same without places. -/
theorem Expr.sameUpToPlaces_resolveValue (e : Expr) :
    SameUpToPlaces e.resolveValue e.unplaced.resolveValue :=
  e.sameUpToPlaces.bind fun bound => .asValue _ _ bound

/-- An expression that must be of a type is resolved to the same without places. -/
theorem Expr.sameUpToPlaces_resolveAs (type : Ty) (e : Expr) :
    SameUpToPlaces (e.resolveAs type) (e.unplaced.resolveAs type) :=
  e.sameUpToPlaces_resolveValue.bind fun bound => .asType type _ _ bound

mutual

/-- A statement is resolved to the same without places. -/
theorem Stmt.sameUpToPlaces (s : Stmt) : SameUpToPlaces s.resolve s.unplaced.resolve := by
  cases s with
  | block opening statements closing =>
    rw [unplaced, Stmt.resolve, Stmt.resolve]
    exact (Stmt.sameUpToPlacesAll statements).inScope.bind fun bounds => .refl _
  | declaration keyword identifier equals initializer =>
    rw [unplaced, Stmt.resolve, Stmt.resolve, Token.kind_unplaced, Token.isMissing_unplaced]
    refine initializer.sameUpToPlaces_resolveValue.bind fun bound => ?_
    refine (SameUpToPlaces.refl _).bind fun v => ?_
    dsimp only
    split
    · exact .refl _
    · refine (SameUpToPlaces.refl _).bind fun declared => ?_
      split
      · exact .refl _
      · exact .reported _ _ _ _
  | ifThen keyword condition consequence =>
    rw [unplaced, Stmt.resolve, Stmt.resolve]
    refine (condition.sameUpToPlaces_resolveAs .bool).bind fun boundCondition => ?_
    exact consequence.sameUpToPlaces.inScope.bind fun bound => .refl _
  | ifElse keyword condition consequence elseWord alternative =>
    rw [unplaced, Stmt.resolve, Stmt.resolve]
    refine (condition.sameUpToPlaces_resolveAs .bool).bind fun boundCondition => ?_
    refine consequence.sameUpToPlaces.inScope.bind fun bound => ?_
    exact alternative.sameUpToPlaces.inScope.bind fun bound' => .refl _
  | whileLoop keyword condition body =>
    rw [unplaced, Stmt.resolve, Stmt.resolve]
    refine (condition.sameUpToPlaces_resolveAs .bool).bind fun boundCondition => ?_
    exact body.sameUpToPlaces.inScope.bind fun bound => .refl _
  | forLoop keyword identifier equals lower toWord upper body =>
    rw [unplaced, Stmt.resolve, Stmt.resolve, Token.isMissing_unplaced]
    refine (lower.sameUpToPlaces_resolveAs .int).bind fun boundLower => ?_
    refine (upper.sameUpToPlaces_resolveAs .int).bind fun boundUpper => .inScope ?_
    refine (SameUpToPlaces.refl _).bind fun v => ?_
    dsimp only
    split
    · exact body.sameUpToPlaces.bind fun bound => .refl _
    · exact (SameUpToPlaces.refl _).bind fun _ => body.sameUpToPlaces.bind fun bound => .refl _
  | expression inner =>
    rw [unplaced, Stmt.resolve, Stmt.resolve]
    exact inner.sameUpToPlaces.bind fun bound => .refl _

/-- A row of statements is resolved to the same without places. -/
theorem Stmt.sameUpToPlacesAll (ss : List Stmt) :
    SameUpToPlaces (Stmt.resolveAll ss) (Stmt.resolveAll (Stmt.unplacedAll ss)) := by
  cases ss with
  | nil => exact .refl _
  | cons s ss =>
    rw [Stmt.unplacedAll, Stmt.resolveAll, Stmt.resolveAll]
    refine s.sameUpToPlaces.bind fun bound => ?_
    exact (Stmt.sameUpToPlacesAll ss).bind fun rest => .refl _

end

/-- What is resolved without a report is resolved to the same at other places. -/
theorem Stmt.run_of_unplaced_eq {s s' : Stmt} {before after : Scoping} {bound : Bound.Stmt}
    (same : s'.unplaced = s.unplaced) (silent : s.resolve.run before = ⟨bound, after, []⟩) :
    s'.resolve.run before = ⟨bound, after, []⟩ := by
  obtain ⟨stays, value, reports⟩ := s.sameUpToPlaces before before rfl
  obtain ⟨stays', value', reports'⟩ := s'.sameUpToPlaces before before rfl
  rw [same] at stays' value' reports'
  rw [silent] at stays value reports
  refine Reporting.run_eq (value'.symm.trans value) (stays'.trans stays.symm) ?_
  exact List.map_eq_nil_iff.1 (reports'.symm.trans reports)

end Syntax

end Scriptlet
