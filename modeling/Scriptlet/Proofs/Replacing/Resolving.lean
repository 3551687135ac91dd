import Scriptlet.Proofs.Replacing.Trees
import Scriptlet.Proofs.Resolving.Primitives

/-!
# Resolving in related scopes

A tree that is resolved twice, from states that are related, gives the same bound tree
up to a replacement of its variables, and related reports. All that has to be known
of the relation is what the few steps of resolving do with it: looking a name up
gives the replaced variable, and making and declaring a variable and opening and
closing a scope lead to related states again. Expressions alone ask for less: only the
names that occur in them need to be looked up alike, and no scope is opened.
-/

namespace Scriptlet

namespace Syntax

mutual

/-- The names of variables that occur in an expression. -/
def Expr.names : Expr → List String
  | .literal _ => []
  | .name identifier => [identifier.text]
  | .assignment identifier _ value => identifier.text :: value.names
  | .unary _ operand => operand.names
  | .binary left _ right => left.names ++ right.names
  | .grouped _ inner _ => inner.names
  | .call _ _ arguments _ => Expr.namesAll arguments

/-- The names of variables that occur in a row of expressions. -/
def Expr.namesAll : List Expr → List String
  | [] => []
  | e :: es => e.names ++ Expr.namesAll es

end

mutual

/-- The names that an expression assigns to. -/
def Expr.targets : Expr → List String
  | .literal _ | .name _ => []
  | .assignment identifier _ value => identifier.text :: value.targets
  | .unary _ operand => operand.targets
  | .binary left _ right => left.targets ++ right.targets
  | .grouped _ inner _ => inner.targets
  | .call _ _ arguments _ => Expr.targetsAll arguments

/-- The names that a row of expressions assigns to. -/
def Expr.targetsAll : List Expr → List String
  | [] => []
  | e :: es => e.targets ++ Expr.targetsAll es

end

end Syntax

namespace Resolving

open Reporting Scriptlet.Bound

/-- From related states, two computations lead to related states. The second one
gives the mapped result of the first, and what they report is related. -/
def Tracks {α β : Type} (R : Scoping → Scoping → Prop)
    (D : List Diagnostic → List Diagnostic → Prop) (m : Resolving α) (h : α → β)
    (m' : Resolving β) : Prop :=
  ∀ s s', R s s' → R (m.run s).state (m'.run s').state ∧
    (m'.run s').value = h (m.run s).value ∧ D (m.run s).diagnostics (m'.run s').diagnostics

/-- A relation between reports that sequences of computations keep. -/
structure Joins (D : List Diagnostic → List Diagnostic → Prop) : Prop where
  nil : D [] []
  same : ∀ d, D [d] [d]
  append : ∀ {xs xs' ys ys'}, D xs xs' → D ys ys' → D (xs ++ ys) (xs' ++ ys')

variable {α β γ δ : Type} {g : Variable → Variable} {R : Scoping → Scoping → Prop}
  {D : List Diagnostic → List Diagnostic → Prop} {P Q : String → Prop}

/-- Mapped results are tracked anywhere. -/
theorem Joins.pure (joins : Joins D) (h : α → β) (a : α) :
    Tracks R D (pure a) h (pure (h a)) := fun _ _ related => ⟨related, rfl, joins.nil⟩

/-- A sequence is tracked if its parts are. -/
theorem Joins.bind (joins : Joins D) {m : Resolving α} {m' : Resolving β} {h : α → β}
    {k : α → Resolving γ} {k' : β → Resolving δ} {h' : γ → δ} (first : Tracks R D m h m')
    (second : ∀ a, Tracks R D (k a) h' (k' (h a))) : Tracks R D (m >>= k) h' (m' >>= k') := by
  intro s s' related
  obtain ⟨related', value, reports⟩ := first s s' related
  have others := second (m.run s).value _ _ related'
  rw [← value] at others
  exact ⟨others.1, others.2.1, joins.append reports others.2.2⟩

/-- Equal reports are related. -/
theorem Joins.report (joins : Joins D) (problem : Problem) (span : Span) :
    Tracks R D (Reporting.report problem span) id (Reporting.report problem span) :=
  fun _ _ related => ⟨related, rfl, joins.same _⟩

/-- A replacement of variables that changes no type, and a relation between reports
that fits it. -/
structure Replacement (g : Variable → Variable) (D : List Diagnostic → List Diagnostic → Prop) :
    Prop where
  joins : Joins D
  type : ∀ v, (g v).type = v.type
  /-- A variable becomes writable only where a report may be left out. -/
  mode : ∀ v, (g v).isReadOnly = v.isReadOnly ∨ (g v).isReadOnly = false ∧ ∀ d, D [d] []

/-- Names are resolved alike from related states, up to a replacement of the variables:
the known ones, and in assignments those of them that may be assigned to. -/
structure ReplacesNames (g : Variable → Variable) (R : Scoping → Scoping → Prop)
    (D : List Diagnostic → List Diagnostic → Prop) (P Q : String → Prop) : Prop extends
    Replacement g D where
  lookup : ∀ name, P name →
    Tracks R D (visibleVariable name) (Option.map g) (visibleVariable name)
  function : ∀ name, Tracks R D (visibleFunction name) id (visibleFunction name)
  assignee : ∀ name type, P name → Q name →
    Tracks R D (Syntax.Expr.resolve.assignee name type) g (Syntax.Expr.resolve.assignee name type)

/-- An argument with its place, its variables replaced. -/
def replacePlaced (g : Variable → Variable) (argument : Span × Expr) : Span × Expr :=
  (argument.1, argument.2.replace g)

/-- A bare expression has its variables replaced. -/
theorem ReplacesNames.value (replaces : ReplacesNames g R D P Q) (e : Expr) :
    Tracks R D (pure e) (·.replace g) (pure (e.replace g)) := replaces.joins.pure _ e

/-- A report is followed by an expression with its variables replaced. -/
theorem ReplacesNames.reported (replaces : ReplacesNames g R D P Q) (problem : Problem)
    (span : Span) (e : Expr) :
    Tracks R D (report problem span >>= fun _ => pure e) (·.replace g)
      (report problem span >>= fun _ => pure (e.replace g)) :=
  replaces.joins.bind (replaces.joins.report problem span) fun _ => replaces.value e

/-- Whether an expression has a value depends on its type alone. -/
theorem ReplacesNames.asValue (replaces : ReplacesNames g R D P Q) (span : Span) (e : Expr) :
    Tracks R D (asValue span e) (·.replace g) (asValue span (e.replace g)) := by
  unfold Resolving.asValue
  rw [Expr.replace_type replaces.type]
  split
  · exact replaces.reported _ _ .error
  · exact replaces.value _

/-- Whether an expression is of a type depends on its type alone. -/
theorem ReplacesNames.asType (replaces : ReplacesNames g R D P Q) (type : Ty) (span : Span)
    (e : Expr) :
    Tracks R D (asType type span e) (·.replace g) (asType type span (e.replace g)) := by
  unfold Resolving.asType
  rw [Expr.replace_type replaces.type]
  split
  · exact replaces.reported _ _ .error
  · exact replaces.value _

/-- Whether arguments fit depends on their types alone. -/
theorem ReplacesNames.argumentsFit (replaces : ReplacesNames g R D P Q)
    (arguments : List (Span × Expr)) (parameters : List Parameter) :
    Tracks R D (argumentsFit arguments parameters) id
      (argumentsFit (arguments.map (replacePlaced g)) parameters) := by
  induction arguments generalizing parameters with
  | nil => exact replaces.joins.pure _ _
  | cons argument arguments ih =>
    cases parameters with
    | nil => exact replaces.joins.pure _ _
    | cons parameter parameters =>
      rw [List.map_cons, replacePlaced, Resolving.argumentsFit, Resolving.argumentsFit,
        Expr.replace_type replaces.type]
      have rest : Tracks R D (do
            let restFit ← Resolving.argumentsFit arguments parameters
            return argument.2.type == parameter.type && restFit) id (do
            let restFit ← Resolving.argumentsFit (arguments.map (replacePlaced g)) parameters
            return argument.2.type == parameter.type && restFit) :=
        replaces.joins.bind (ih parameters) fun restFit => replaces.joins.pure id _
      split
      · exact replaces.joins.bind (replaces.joins.report _ _) fun _ => rest
      · exact rest

end Resolving

namespace Syntax

open Resolving

variable {g : Variable → Variable} {R : Scoping → Scoping → Prop}
  {D : List Diagnostic → List Diagnostic → Prop} {P Q : String → Prop}

/-- Whether a value may be given to a target depends on their types and, up to a
report that may be left out, on whether the target is read-only. -/
theorem Expr.tracks_assigned (replaces : ReplacesNames g R D P Q) (identifier equals : Token)
    (span : Span) (target : Variable) (bound : Bound.Expr) :
    Tracks R D (assigned identifier equals span target bound) (·.replace g)
      (assigned identifier equals span (g target) (bound.replace g)) := by
  have fits : Tracks R D (fitted span target bound) (·.replace g)
      (fitted span (g target) (bound.replace g)) := by
    unfold fitted
    rw [Bound.Expr.replace_type replaces.type, replaces.type]
    split
    · exact replaces.reported _ _ .error
    · exact replaces.value (.assignment target bound)
  unfold assigned
  rcases replaces.mode target with same | ⟨writable, omits⟩
  · rw [same]
    split
    · exact replaces.joins.bind (replaces.joins.report _ _) fun _ => fits
    · exact fits
  · rw [writable]
    split
    · intro s s' related
      obtain ⟨related', value, reports⟩ := fits s s' related
      exact ⟨related', value, replaces.joins.append (omits _) reports⟩
    · exact fits

mutual

/-- An expression is resolved alike from related states. -/
theorem Expr.tracks_resolve (replaces : ReplacesNames g R D P Q) (e : Expr)
    (names : ∀ name ∈ e.names, P name) (targets : ∀ name ∈ e.targets, Q name) :
    Tracks R D e.resolve (·.replace g) e.resolve := by
  have joins := replaces.joins
  have types := Bound.Expr.replace_type replaces.type
  cases e with
  | literal token => exact replaces.value (.literal _)
  | name identifier =>
    have here := names _ List.mem_cons_self
    rw [Expr.resolve]
    split
    · exact replaces.value .error
    · refine joins.bind (replaces.lookup _ here) fun visible => ?_
      cases visible with
      | some v => exact replaces.value (.name v)
      | none => exact replaces.reported _ _ (.literal (.int 0))
  | assignment identifier equals value =>
    have known := names _ List.mem_cons_self
    have assigned := targets _ List.mem_cons_self
    have part := value.tracks_resolve replaces (fun name h => names name (List.mem_cons_of_mem _ h))
      fun name h => targets name (List.mem_cons_of_mem _ h)
    rw [Expr.resolve_assignment]
    refine joins.bind (joins.bind part fun bound => replaces.asValue _ bound) fun bound => ?_
    rw [types]
    refine joins.bind (replaces.assignee _ _ known assigned) fun target => ?_
    exact Expr.tracks_assigned replaces _ _ _ _ _
  | unary operator operand =>
    rw [Expr.resolve]
    refine joins.bind (operand.tracks_resolve replaces names targets) fun part => ?_
    refine joins.bind (replaces.asValue _ part) fun bound => ?_
    rw [types]
    split
    · exact replaces.value .error
    · split
      next o _ => exact replaces.value (.unary o bound)
      next => exact replaces.reported _ _ bound
  | binary left operator right =>
    obtain ⟨names, names'⟩ := List.forall_mem_append.1 names
    obtain ⟨targets, targets'⟩ := List.forall_mem_append.1 targets
    rw [Expr.resolve]
    refine joins.bind (left.tracks_resolve replaces names targets) fun part => ?_
    refine joins.bind (replaces.asValue _ part) fun boundLeft => ?_
    refine joins.bind (right.tracks_resolve replaces names' targets') fun part' => ?_
    refine joins.bind (replaces.asValue _ part') fun boundRight => ?_
    rw [types, types]
    split
    · exact replaces.value .error
    · split
      next o _ => exact replaces.value (.binary boundLeft o boundRight)
      next => exact replaces.reported _ _ boundLeft
  | grouped opening inner closing =>
    rw [Expr.resolve]
    exact joins.bind (inner.tracks_resolve replaces names targets) fun bound =>
      replaces.asValue _ bound
  | call identifier opening arguments closing =>
    rw [Expr.resolve]
    refine joins.bind (Expr.tracks_resolveAll replaces arguments names targets) fun bound => ?_
    refine joins.bind (replaces.function _) fun visible => ?_
    rw [id]
    cases visible with
    | none => exact replaces.reported _ _ .error
    | some function =>
      dsimp only
      rw [List.length_map]
      split
      · exact replaces.reported _ _ .error
      · refine joins.bind (replaces.argumentsFit _ _) fun fit => ?_
        cases fit with
        | false => exact replaces.value .error
        | true =>
          have replaced : (bound.map (replacePlaced g)).map Prod.snd =
              Bound.Expr.replaceAll g (bound.map Prod.snd) := by
            rw [Bound.Expr.replaceAll_eq_map, List.map_map, List.map_map]
            rfl
          rw [id, if_pos rfl, if_pos rfl, replaced]
          exact replaces.value (.call function (bound.map Prod.snd))

/-- A row of expressions is resolved alike from related states. -/
theorem Expr.tracks_resolveAll (replaces : ReplacesNames g R D P Q) (es : List Expr)
    (names : ∀ name ∈ Expr.namesAll es, P name) (targets : ∀ name ∈ Expr.targetsAll es, Q name) :
    Tracks R D (Expr.resolveAll es) (List.map (replacePlaced g)) (Expr.resolveAll es) := by
  have joins := replaces.joins
  cases es with
  | nil => exact joins.pure _ []
  | cons e es =>
    obtain ⟨names, names'⟩ := List.forall_mem_append.1 names
    obtain ⟨targets, targets'⟩ := List.forall_mem_append.1 targets
    rw [Expr.resolveAll]
    refine joins.bind (e.tracks_resolve replaces names targets) fun part => ?_
    refine joins.bind (replaces.asValue _ part) fun bound => ?_
    refine joins.bind (Expr.tracks_resolveAll replaces es names' targets') fun rest => ?_
    exact joins.pure (List.map (replacePlaced g)) ((e.span, bound) :: rest)

end

/-- An expression that must have a value is resolved alike from related states. -/
theorem Expr.tracks_resolveValue (replaces : ReplacesNames g R D P Q) (e : Expr)
    (names : ∀ name ∈ e.names, P name) (targets : ∀ name ∈ e.targets, Q name) :
    Tracks R D e.resolveValue (·.replace g) e.resolveValue :=
  replaces.joins.bind (e.tracks_resolve replaces names targets) fun part =>
    replaces.asValue _ part

/-- An expression that must be of a type is resolved alike from related states. -/
theorem Expr.tracks_resolveAs (replaces : ReplacesNames g R D P Q) (type : Ty) (e : Expr)
    (names : ∀ name ∈ e.names, P name) (targets : ∀ name ∈ e.targets, Q name) :
    Tracks R D (e.resolveAs type) (·.replace g) (e.resolveAs type) :=
  replaces.joins.bind (e.tracks_resolveValue replaces names targets) fun bound =>
    replaces.asType _ _ bound

end Syntax

namespace Resolving

open Reporting

/-- Whole statements are resolved alike from related states, up to a replacement of the
variables. The relations are numbered by how many scopes are open inside. -/
structure ReplacesScopes (g : Variable → Variable) (R : Nat → Scoping → Scoping → Prop)
    (D : List Diagnostic → List Diagnostic → Prop) : Prop extends Replacement g D where
  lookup : ∀ n name, Tracks (R n) D (visibleVariable name) (Option.map g) (visibleVariable name)
  function : ∀ n name, Tracks (R n) D (visibleFunction name) id (visibleFunction name)
  newVariable : ∀ n name type isReadOnly, Tracks (R n) D (newVariable name type isReadOnly) g
    (newVariable name type isReadOnly)
  declare : ∀ n v, Tracks (R n) D (declare v) id (declare (g v))
  openScope : ∀ n s s', R n s s' → R (n + 1) (openScope.run s).state (openScope.run s').state
  closeScope : ∀ n s s', R (n + 1) s s' → R n (closeScope.run s).state (closeScope.run s').state

variable {α : Type} {g : Variable → Variable} {R : Nat → Scoping → Scoping → Prop}
  {D : List Diagnostic → List Diagnostic → Prop}

/-- The target of an assignment is the replaced one. -/
theorem ReplacesScopes.assignee (replaces : ReplacesScopes g R D) (n : Nat) (name : String)
    (type : Ty) : Tracks (R n) D (Syntax.Expr.resolve.assignee name type) g
      (Syntax.Expr.resolve.assignee name type) := by
  have joins := replaces.joins
  refine joins.bind (replaces.lookup n name) fun visible => ?_
  cases visible with
  | some v => exact joins.pure g v
  | none =>
    refine joins.bind (replaces.newVariable n name type false) fun v => ?_
    exact joins.bind (replaces.declare n v) fun _ => joins.pure g v

/-- Where whole statements are resolved alike, all names are. -/
theorem ReplacesScopes.names (replaces : ReplacesScopes g R D) (n : Nat) :
    ReplacesNames g (R n) D (fun _ => True) fun _ => True where
  toReplacement := replaces.toReplacement
  lookup name _ := replaces.lookup n name
  function := replaces.function n
  assignee name type _ _ := replaces.assignee n name type

/-- What is done in a scope of its own is tracked if it is inside. -/
theorem ReplacesScopes.inScope (replaces : ReplacesScopes g R D) {n : Nat} {m m' : Resolving α}
    {h : α → α} (part : Tracks (R (n + 1)) D m h m') :
    Tracks (R n) D (inScope m) h (inScope m') := by
  intro s s' related
  obtain ⟨related', value, reports⟩ := part _ _ (replaces.openScope n s s' related)
  refine ⟨replaces.closeScope n _ _ related', value, ?_⟩
  -- Opening and closing a scope reports nothing.
  have silent (m : Resolving α) (s : Scoping) : ((Resolving.inScope m).run s).diagnostics =
      (m.run (Resolving.openScope.run s).state).diagnostics := List.append_nil _
  rw [silent, silent]
  exact reports

end Resolving

namespace Syntax

open Resolving

variable {g : Variable → Variable} {R : Nat → Scoping → Scoping → Prop}
  {D : List Diagnostic → List Diagnostic → Prop}

mutual

/-- A statement is resolved alike from related states. -/
theorem Stmt.tracks_resolve (replaces : ReplacesScopes g R D) (n : Nat) (s : Stmt) :
    Tracks (R n) D s.resolve (·.replace g id) s.resolve := by
  have joins := replaces.joins
  have types := Bound.Expr.replace_type replaces.type
  have typed (type : Ty) (e : Expr) :
      Tracks (R n) D (e.resolveAs type) (·.replace g) (e.resolveAs type) :=
    e.tracks_resolveAs (replaces.names n) type (fun _ _ => trivial) fun _ _ => trivial
  have value (bound : Bound.Stmt) :
      Tracks (R n) D (pure bound) (·.replace g id) (pure (bound.replace g id)) :=
    joins.pure _ bound
  cases s with
  | block opening statements closing =>
    rw [Stmt.resolve]
    refine joins.bind (replaces.inScope (Stmt.tracks_resolveAll replaces (n + 1) statements)) ?_
    exact fun bounds => value (.block bounds)
  | declaration keyword identifier equals initializer =>
    rw [Stmt.resolve]
    refine joins.bind (initializer.tracks_resolveValue (replaces.names n) (fun _ _ => trivial)
      fun _ _ => trivial) fun bound => ?_
    rw [types]
    refine joins.bind (replaces.newVariable n _ _ _) fun v => ?_
    dsimp only
    split
    · exact value (.declaration v bound)
    · refine joins.bind (replaces.declare n v) fun declared => ?_
      rw [id]
      split
      · exact value (.declaration v bound)
      · exact joins.bind (joins.report _ _) fun _ => value (.declaration v bound)
  | ifThen keyword condition consequence =>
    rw [Stmt.resolve]
    refine joins.bind (typed .bool condition) fun boundCondition => ?_
    refine joins.bind (replaces.inScope (consequence.tracks_resolve replaces (n + 1))) ?_
    exact fun bound => value (.ifThen boundCondition bound)
  | ifElse keyword condition consequence elseWord alternative =>
    rw [Stmt.resolve]
    refine joins.bind (typed .bool condition) fun boundCondition => ?_
    refine joins.bind (replaces.inScope (consequence.tracks_resolve replaces (n + 1))) ?_
    intro bound
    refine joins.bind (replaces.inScope (alternative.tracks_resolve replaces (n + 1))) ?_
    exact fun bound' => value (.ifElse boundCondition bound bound')
  | whileLoop keyword condition body =>
    rw [Stmt.resolve]
    refine joins.bind (typed .bool condition) fun boundCondition => ?_
    refine joins.bind (replaces.inScope (body.tracks_resolve replaces (n + 1))) ?_
    exact fun bound => value (.whileLoop boundCondition bound)
  | forLoop keyword identifier equals lower toWord upper body =>
    rw [Stmt.resolve]
    refine joins.bind (typed .int lower) fun boundLower => ?_
    refine joins.bind (typed .int upper) fun boundUpper => replaces.inScope ?_
    refine joins.bind (replaces.newVariable (n + 1) _ _ _) fun v => ?_
    have round : Tracks (R (n + 1)) D (do
          let bound ← body.resolve
          return Bound.Stmt.forLoop v boundLower boundUpper bound) (·.replace g id) (do
          let bound ← body.resolve
          return .forLoop (g v) (boundLower.replace g) (boundUpper.replace g) bound) :=
      joins.bind (body.tracks_resolve replaces (n + 1)) fun bound =>
        joins.pure (Bound.Stmt.replace g id) (.forLoop v boundLower boundUpper bound)
    dsimp only
    split
    · exact round
    · exact joins.bind (replaces.declare (n + 1) v) fun _ => round
  | expression inner =>
    rw [Stmt.resolve]
    have part := inner.tracks_resolve (replaces.names n) (fun _ _ => trivial) fun _ _ => trivial
    exact joins.bind part fun bound => value (.expression bound)

/-- A row of statements is resolved alike from related states. -/
theorem Stmt.tracks_resolveAll (replaces : ReplacesScopes g R D) (n : Nat) (ss : List Stmt) :
    Tracks (R n) D (Stmt.resolveAll ss) (Bound.Stmt.replaceAll g id) (Stmt.resolveAll ss) := by
  have joins := replaces.joins
  cases ss with
  | nil => exact joins.pure _ []
  | cons s ss =>
    rw [Stmt.resolveAll]
    refine joins.bind (s.tracks_resolve replaces n) fun bound => ?_
    refine joins.bind (Stmt.tracks_resolveAll replaces n ss) fun rest => ?_
    exact joins.pure (Bound.Stmt.replaceAll g id) (bound :: rest)

end

end Syntax

end Scriptlet
