import Scriptlet.Diagnostic
import Scriptlet.Symbol
import Scriptlet.Syntax.Tree

/-!
# What can be seen from a place of a tree

Which declaration a name means is a matter of the tree alone, whatever the types
are. The view from a place lists the declarations in the scopes around it, and
every form of syntax says how the view in front of it becomes the view behind
it: an initializer comes before the name it initializes, an assigned value
before its target, the bounds of a counting loop before its variable, and
everything else goes from left to right. Behind a scope, what was declared in it
is out of sight.
-/

namespace Scriptlet

/-- A declaration of a name, told apart by the identity of its variable. -/
structure Declaration where
  id : Nat
  name : String
  deriving DecidableEq, Repr

/-- The declarations that can be seen from a place. -/
structure View where
  /-- The declarations of the innermost scope so far, in their order. -/
  here : List Declaration
  /-- The declarations of the scopes around it, the innermost scope first. -/
  outer : List (List Declaration)
  /-- The identities of the variables that were introduced so far, seen or not,
  in their order. -/
  introduced : List Nat
  /-- Identity of the next variable. -/
  nextId : Nat
  deriving DecidableEq, Repr

namespace View

/-- All scopes, the innermost first. -/
def scopes (view : View) : List (List Declaration) := view.here :: view.outer

/-- The first declaration of a name in the innermost scope that has one. -/
def find? (view : View) (name : String) : Option Declaration :=
  view.scopes.findSome? fun scope => scope.find? (·.name == name)

/-- A variable is introduced that no name means. -/
def introduce (view : View) : View :=
  { view with introduced := view.introduced ++ [view.nextId], nextId := view.nextId + 1 }

/-- A variable is introduced under a name in the innermost scope. -/
def declare (view : View) (name : String) : View :=
  { view.introduce with here := view.here ++ [⟨view.nextId, name⟩] }

/-- A variable is introduced under the name of an identifier, if that is in the
source. -/
def declareAt (view : View) (identifier : Token) : View :=
  if identifier.isMissing then view.introduce else view.declare identifier.text

/-- An assignment declares a name that has no declaration. -/
def assign (view : View) (name : String) : View :=
  if (view.find? name).isSome then view else view.declare name

/-- A scope begins. -/
def enter (view : View) : View := { view with here := [], outer := view.here :: view.outer }

/-- A scope inside has ended: its declarations are out of sight, but their
identities are used up. -/
def leave (view inner : View) : View :=
  { view with introduced := inner.introduced, nextId := inner.nextId }

/-- The view behind a scope with something in it. -/
def inside (view : View) (part : View → View) : View := view.leave (part view.enter)

/-- The identities introduced so far, the given ones first, are all different, and
different from those that come. -/
structure Distinct (earlier : List Nat) (view : View) : Prop where
  known : earlier <+: view.introduced
  nodup : view.introduced.Nodup
  below : ∀ id ∈ view.introduced, id < view.nextId

variable {earlier : List Nat} {view : View}

/-- The identity of a new variable has not been used. -/
theorem Distinct.fresh (h : view.Distinct earlier) : view.nextId ∉ view.introduced := by
  intro hmem
  have hlt := h.below view.nextId hmem
  omega

theorem Distinct.introduce (h : view.Distinct earlier) : view.introduce.Distinct earlier := by
  refine ⟨h.known.trans (List.prefix_append _ _), ?_, ?_⟩
  · rw [View.introduce, List.nodup_append]
    refine ⟨h.nodup, by simp, ?_⟩
    intro id hid id' hid'
    have hlt := h.below id hid
    have heq := List.mem_singleton.1 hid'
    omega
  · intro id hid
    rw [View.introduce, List.mem_append, List.mem_singleton] at hid
    have before := h.below id
    have hnext : view.introduce.nextId = view.nextId + 1 := rfl
    rcases hid with hid | hid
    · have hlt := before hid
      omega
    · omega

theorem Distinct.declare (h : view.Distinct earlier) (name : String) :
    (view.declare name).Distinct earlier :=
  ⟨h.introduce.known, h.introduce.nodup, h.introduce.below⟩

theorem Distinct.declareAt (h : view.Distinct earlier) (identifier : Token) :
    (view.declareAt identifier).Distinct earlier := by
  unfold View.declareAt
  split
  · exact h.introduce
  · exact h.declare _

theorem Distinct.assign (h : view.Distinct earlier) (name : String) :
    (view.assign name).Distinct earlier := by
  unfold View.assign
  split
  · exact h
  · exact h.declare name

theorem Distinct.enter (h : view.Distinct earlier) : view.enter.Distinct earlier :=
  ⟨h.known, h.nodup, h.below⟩

theorem Distinct.inside (h : view.Distinct earlier) {part : View → View}
    (step : ∀ inner : View, inner.Distinct earlier → (part inner).Distinct earlier) :
    (view.inside part).Distinct earlier := by
  have ends := step view.enter h.enter
  exact ⟨ends.known, ends.nodup, ends.below⟩

/-- All identities introduced so far may count as given. -/
theorem Distinct.from_here (h : view.Distinct earlier) : view.Distinct view.introduced :=
  ⟨List.prefix_refl _, h.nodup, h.below⟩

/-- Identities may be passed over. -/
theorem Distinct.raise (h : view.Distinct earlier) {nextId : Nat} (above : view.nextId ≤ nextId) :
    Distinct earlier { view with nextId } :=
  ⟨h.known, h.nodup, fun id hid => Nat.lt_of_lt_of_le (h.below id hid) above⟩

end View

/-- The report is about a name that means nothing. -/
def Diagnostic.isUnknown (d : Diagnostic) : Bool :=
  match d.problem with
  | .undefinedName _ | .undefinedFunction _ => true
  | _ => false

namespace Syntax

mutual

/-- The view behind an expression. -/
def Expr.behind : Expr → View → View
  | .literal _, view => view
  | .name _, view => view
  | .assignment identifier _ value, view => (value.behind view).assign identifier.text
  | .unary _ operand, view => operand.behind view
  | .binary left _ right, view => right.behind (left.behind view)
  | .grouped _ inner _, view => inner.behind view
  | .call _ _ arguments _, view => Expr.behindAll arguments view

/-- The view behind a row of expressions. -/
def Expr.behindAll : List Expr → View → View
  | [], view => view
  | e :: es, view => Expr.behindAll es (e.behind view)

end

mutual

/-- The view behind a statement. -/
def Stmt.behind : Stmt → View → View
  | .block _ statements _, view => view.inside (Stmt.behindAll statements)
  | .declaration _ identifier _ initializer, view =>
    (initializer.behind view).declareAt identifier
  | .ifThen _ condition consequence, view => (condition.behind view).inside consequence.behind
  | .ifElse _ condition consequence _ alternative, view =>
    ((condition.behind view).inside consequence.behind).inside alternative.behind
  | .whileLoop _ condition body, view => (condition.behind view).inside body.behind
  | .forLoop _ identifier _ lower _ upper body, view =>
    (upper.behind (lower.behind view)).inside fun inner => body.behind (inner.declareAt identifier)
  | .expression inner, view => inner.behind view

/-- The view behind a row of statements. -/
def Stmt.behindAll : List Stmt → View → View
  | [], view => view
  | s :: ss, view => Stmt.behindAll ss (s.behind view)

end

mutual

/-- Expressions keep identities apart. -/
theorem Expr.distinct_behind (e : Expr) {earlier : List Nat} {view : View}
    (h : view.Distinct earlier) : (e.behind view).Distinct earlier := by
  cases e with
  | literal | name => exact h
  | assignment identifier equals value => exact (value.distinct_behind h).assign _
  | unary operator operand => exact operand.distinct_behind h
  | binary left operator right => exact right.distinct_behind (left.distinct_behind h)
  | grouped opening inner closing => exact inner.distinct_behind h
  | call identifier opening arguments closing => exact Expr.distinct_behindAll arguments h

/-- Rows of expressions keep identities apart. -/
theorem Expr.distinct_behindAll (es : List Expr) {earlier : List Nat} {view : View}
    (h : view.Distinct earlier) : (Expr.behindAll es view).Distinct earlier := by
  cases es with
  | nil => exact h
  | cons e es => exact Expr.distinct_behindAll es (e.distinct_behind h)

end

mutual

/-- Statements keep identities apart. -/
theorem Stmt.distinct_behind (s : Stmt) {earlier : List Nat} {view : View}
    (h : view.Distinct earlier) : (s.behind view).Distinct earlier := by
  cases s with
  | block opening statements closing =>
    exact h.inside fun inner hinner => Stmt.distinct_behindAll statements hinner
  | declaration keyword identifier equals initializer =>
    exact (initializer.distinct_behind h).declareAt identifier
  | ifThen keyword condition consequence =>
    have tested := condition.distinct_behind h
    exact tested.inside fun inner hinner => consequence.distinct_behind hinner
  | ifElse keyword condition consequence elseWord alternative =>
    have tested := condition.distinct_behind h
    have first := tested.inside fun inner hinner => consequence.distinct_behind hinner
    exact first.inside fun inner hinner => alternative.distinct_behind hinner
  | whileLoop keyword condition body =>
    have tested := condition.distinct_behind h
    exact tested.inside fun inner hinner => body.distinct_behind hinner
  | forLoop keyword identifier equals lower toWord upper body =>
    have counted := upper.distinct_behind (lower.distinct_behind h)
    exact counted.inside fun inner hinner => body.distinct_behind (hinner.declareAt identifier)
  | expression inner => exact inner.distinct_behind h

/-- Rows of statements keep identities apart. -/
theorem Stmt.distinct_behindAll (ss : List Stmt) {earlier : List Nat} {view : View}
    (h : view.Distinct earlier) : (Stmt.behindAll ss view).Distinct earlier := by
  cases ss with
  | nil => exact h
  | cons s ss => exact Stmt.distinct_behindAll ss (s.distinct_behind h)

end

/-- The report of a name that has no declaration. -/
def undefinedName (identifier : Token) : Diagnostic :=
  ⟨.undefinedName identifier.text, identifier.span⟩

/-- The report of a call of something that is no function. -/
def undefinedFunction (identifier : Token) : Diagnostic :=
  ⟨.undefinedFunction identifier.text, identifier.span⟩

mutual

/-- The names in an expression that mean nothing, in the order of the text: those
used as a value without a declaration and those called that no function has. -/
def Expr.unknown : Expr → View → List Diagnostic
  | .literal _, _ => []
  | .name identifier, view =>
    if identifier.isMissing || (view.find? identifier.text).isSome then []
    else [undefinedName identifier]
  | .assignment _ _ value, view => value.unknown view
  | .unary _ operand, view => operand.unknown view
  | .binary left _ right, view => left.unknown view ++ right.unknown (left.behind view)
  | .grouped _ inner _, view => inner.unknown view
  | .call identifier _ arguments _, view =>
    Expr.unknownAll arguments view ++
      if (Function.builtins.find? (·.name == identifier.text)).isSome then []
      else [undefinedFunction identifier]

/-- The names in a row of expressions that mean nothing. -/
def Expr.unknownAll : List Expr → View → List Diagnostic
  | [], _ => []
  | e :: es, view => e.unknown view ++ Expr.unknownAll es (e.behind view)

end

mutual

/-- The names in a statement that mean nothing, in the order of the text. -/
def Stmt.unknown : Stmt → View → List Diagnostic
  | .block _ statements _, view => Stmt.unknownAll statements view.enter
  | .declaration _ _ _ initializer, view => initializer.unknown view
  | .ifThen _ condition consequence, view =>
    condition.unknown view ++ consequence.unknown (condition.behind view).enter
  | .ifElse _ condition consequence _ alternative, view =>
    let tested := condition.behind view
    condition.unknown view ++ (consequence.unknown tested.enter ++
      alternative.unknown (tested.inside consequence.behind).enter)
  | .whileLoop _ condition body, view =>
    condition.unknown view ++ body.unknown (condition.behind view).enter
  | .forLoop _ identifier _ lower _ upper body, view =>
    let counted := upper.behind (lower.behind view)
    lower.unknown view ++ (upper.unknown (lower.behind view) ++
      body.unknown (counted.enter.declareAt identifier))
  | .expression inner, view => inner.unknown view

/-- The names in a row of statements that mean nothing. -/
def Stmt.unknownAll : List Stmt → View → List Diagnostic
  | [], _ => []
  | s :: ss, view => s.unknown view ++ Stmt.unknownAll ss (s.behind view)

end

end Syntax

end Scriptlet
