import Mathlib.Data.List.Forall2
import Scriptlet.Proofs.Resolving.Identities
import Scriptlet.Proofs.Resolving.Surroundings
import Scriptlet.Proofs.Scoping.Views

/-!
# Resolving follows the view

The scopes that are open while a tree is resolved hold, name by name, the
variables of the declarations that can be seen: a scope keeps the first variable
of a name only, which is the one that its first declaration introduces. What is
reported about names is what the view tells about them, whatever else is wrong
with the tree.
-/

namespace Scriptlet

/-- A row holds the variables of the first declaration of each name. -/
structure Holds (vars : List Variable) (scope : List Declaration) : Prop where
  found : ∀ name, (vars.find? (·.name == name)).map Variable.id =
    (scope.find? (·.name == name)).map Declaration.id
  distinct : (vars.map Variable.name).Nodup

/-- The rows hold the variables of the declarations that can be seen. -/
structure View.Shows (view : View) (here : Frame) (outer : Rows) : Prop where
  nextId : here.nextId = view.nextId
  here : Holds here.vars view.here
  outer : List.Forall₂ Holds outer view.outer

theorem holds_nil : Holds [] [] := ⟨fun _ => rfl, List.nodup_nil⟩

namespace View

variable {view view' : View} {here : Frame} {outer : Rows} {name : String} {type : Ty}
  {isReadOnly : Bool}

/-- Looking a name up finds the variable of the declaration that can be seen. -/
theorem Shows.lookup? (h : view.Shows here outer) (name : String) :
    ((here.rows outer).lookup? name).map Variable.id = (view.find? name).map Declaration.id := by
  have hold : List.Forall₂ Holds (here.rows outer) view.scopes := .cons h.here h.outer
  rw [Rows.lookup?, find?]
  generalize here.rows outer = rows, view.scopes = scopes at hold
  induction hold with
  | nil => rfl
  | @cons vars scope rows scopes holds _ ih =>
    have first := holds.found name
    rw [List.findSome?_cons, List.findSome?_cons]
    cases hvars : vars.find? (·.name == name) with
    | none =>
      rw [hvars, Option.map_none] at first
      rw [Option.map_eq_none_iff.1 first.symm]
      exact ih
    | some v =>
      rw [hvars] at first
      obtain ⟨d, hd, hid⟩ := Option.map_eq_some_iff.1 first.symm
      rw [hd]
      exact congrArg some hid.symm

/-- A name can be looked up where its declaration can be seen. -/
theorem Shows.lookup?_eq_none_iff (h : view.Shows here outer) :
    (here.rows outer).lookup? name = none ↔ view.find? name = none := by
  have same := h.lookup? name
  constructor
  · intro hnone
    rw [hnone] at same
    exact Option.map_eq_none_iff.1 same.symm
  · intro hnone
    rw [hnone] at same
    exact Option.map_eq_none_iff.1 same

/-- A variable may be introduced in no scope. -/
theorem Shows.introduce (h : view.Shows here outer) :
    view.introduce.Shows ⟨here.vars, here.nextId + 1⟩ outer :=
  ⟨congrArg (· + 1) h.nextId, h.here, h.outer⟩

/-- A variable is declared under a name that the innermost row does not hold. -/
theorem Shows.declare (h : view.Shows here outer)
    (free : here.vars.find? (·.name == name) = none) :
    (view.declare name).Shows (here.declare name type isReadOnly) outer := by
  have unseen : view.here.find? (·.name == name) = none := by
    have same := h.here.found name
    rw [free] at same
    exact Option.map_eq_none_iff.1 same.symm
  refine ⟨congrArg (· + 1) h.nextId, ⟨fun name' => ?_, ?_⟩, h.outer⟩
  · have same := h.here.found name'
    simp only [Frame.declare, View.declare, List.find?_append, Frame.next, h.nextId]
    cases hvars : here.vars.find? (·.name == name') with
    | none =>
      rw [hvars] at same
      rw [Option.map_eq_none_iff.1 same.symm]
      by_cases hname : name = name'
      · simp [hname]
      · simp [hname]
    | some v =>
      rw [hvars] at same
      obtain ⟨d, hd, hid⟩ := Option.map_eq_some_iff.1 same.symm
      rw [hd]
      exact congrArg some hid.symm
  · have apart : name ∉ here.vars.map Variable.name := by
      intro hmem
      obtain ⟨v, hv, hname⟩ := List.mem_map.1 hmem
      rw [List.find?_eq_none] at free
      exact free v hv (by simpa using hname)
    rw [Frame.declare, List.map_append, List.nodup_append]
    refine ⟨h.here.distinct, by simp, fun a ha b hb hab => ?_⟩
    have hb' : b = name := by simpa [Frame.next] using hb
    exact apart (hb' ▸ hab ▸ ha)

/-- A further declaration of a name that the innermost row holds is not seen. -/
theorem Shows.declare_taken (h : view.Shows here outer)
    (taken : (here.vars.find? (·.name == name)).isSome = true) :
    (view.declare name).Shows ⟨here.vars, here.nextId + 1⟩ outer := by
  have seen : (view.here.find? (·.name == name)).isSome = true := by
    have same := congrArg Option.isSome (h.here.found name)
    simpa [taken] using same.symm
  refine ⟨congrArg (· + 1) h.nextId, ⟨fun name' => ?_, h.here.distinct⟩, h.outer⟩
  have same := h.here.found name'
  simp only [View.declare, List.find?_append]
  by_cases hname : name = name'
  · subst hname
    rw [same]
    obtain ⟨d, hd⟩ := Option.isSome_iff_exists.1 seen
    rw [hd]
    rfl
  · rw [same]
    simp [hname]

/-- A scope begins without variables. -/
theorem Shows.enter (h : view.Shows here outer) :
    view.enter.Shows (.fresh here.nextId) (here.rows outer) :=
  ⟨h.nextId, holds_nil, .cons h.here h.outer⟩

/-- Behind a scope everything is seen as in front of it. -/
theorem Shows.leave {inner : View} {there : Frame} (h : view.Shows here outer)
    (ends : inner.Shows there (here.rows outer)) :
    (view.leave inner).Shows (here.behind there) outer :=
  ⟨ends.nextId, h.here, h.outer⟩

end View

namespace Resolving

open Reporting

/-- Where the rows hold what can be seen, a computation makes them hold what can
be seen from another view, and reports the given names as unknown. -/
def FollowsAt {α : Type} (view : View) (here : Frame) (outer : Rows) (m : Resolving α)
    (view' : View) (reports : List Diagnostic) : Prop :=
  view.Shows here outer → ∃ there : Frame,
    (m.run (here.scoping outer)).state = there.scoping outer ∧ view'.Shows there outer ∧
      (m.run (here.scoping outer)).diagnostics.filter Diagnostic.isUnknown = reports

/-- A computation neither touches the scopes nor reports a name as unknown. -/
def Quiet {α : Type} (m : Resolving α) : Prop :=
  ∀ s : Scoping, (m.run s).state = s ∧ (m.run s).diagnostics.filter Diagnostic.isUnknown = []

variable {α β : Type} {m : Resolving α} {f : α → Resolving β} {view view' view'' : View}
  {here : Frame} {outer : Rows} {reports reports' : List Diagnostic}

theorem quiet_pure (a : α) : Quiet (pure a) := fun _ => ⟨rfl, rfl⟩

/-- A sequence is quiet if its parts are. -/
theorem Quiet.bind (h : Quiet m) (h' : ∀ a, Quiet (f a)) : Quiet (m >>= f) := by
  intro s
  have first := h s
  have second := h' (m.run s).value s
  rw [run_bind, first.1]
  refine ⟨second.1, ?_⟩
  rw [List.filter_append, first.2, second.2]
  rfl

/-- A report about anything but an unknown name is quiet. -/
theorem quiet_report {problem : Problem} {span : Span}
    (other : Diagnostic.isUnknown ⟨problem, span⟩ = false) : Quiet (report problem span) := by
  intro s
  refine ⟨rfl, ?_⟩
  simp [other]

/-- A check for a value is quiet. -/
theorem quiet_asValue (span : Span) (e : Bound.Expr) : Quiet (asValue span e) := by
  unfold asValue
  split
  · exact (quiet_report rfl).bind fun _ => quiet_pure _
  · exact quiet_pure _

/-- A check for a type is quiet. -/
theorem quiet_asType (type : Ty) (span : Span) (e : Bound.Expr) : Quiet (asType type span e) := by
  unfold asType
  split
  · exact (quiet_report rfl).bind fun _ => quiet_pure _
  · exact quiet_pure _

/-- A comparison of arguments with parameters is quiet. -/
theorem quiet_argumentsFit (arguments : List (Span × Bound.Expr)) (parameters : List Parameter) :
    Quiet (argumentsFit arguments parameters) := by
  induction arguments generalizing parameters with
  | nil => exact quiet_pure _
  | cons argument arguments ih =>
    cases parameters with
    | nil => exact quiet_pure _
    | cons parameter parameters =>
      rw [argumentsFit]
      have rest := (ih parameters).bind fun restFit =>
        quiet_pure (argument.2.type == parameter.type && restFit)
      split
      · exact (quiet_report rfl).bind fun _ => rest
      · exact rest

/-- What is quiet follows the view that it finds. -/
theorem Quiet.followsAt (h : Quiet m) : FollowsAt view here outer m view [] := by
  intro shows
  have quiet := h (here.scoping outer)
  exact ⟨here, quiet.1, shows, quiet.2⟩

/-- A sequence follows the views of its parts. -/
theorem FollowsAt.bind (h : FollowsAt view here outer m view' reports)
    (h' : ∀ a there, FollowsAt view' there outer (f a) view'' reports') :
    FollowsAt view here outer (m >>= f) view'' (reports ++ reports') := by
  intro shows
  obtain ⟨there, hstate, shows', hreports⟩ := h shows
  have second := h' (m.run (here.scoping outer)).value there shows'
  rw [run_bind, hstate]
  obtain ⟨there', hstate', shows'', hreports'⟩ := second
  refine ⟨there', hstate', shows'', ?_⟩
  rw [List.filter_append, hreports, hreports']

/-- What is quiet changes nothing behind other computations. -/
theorem FollowsAt.before (h : FollowsAt view here outer m view' reports)
    (h' : ∀ a, Quiet (f a)) : FollowsAt view here outer (m >>= f) view' reports := by
  have whole := h.bind fun a there => (h' a : Quiet _).followsAt
  rwa [List.append_nil] at whole

/-- What is quiet changes nothing in front of other computations. -/
theorem Quiet.then (h : Quiet m) (h' : ∀ a, FollowsAt view here outer (f a) view' reports) :
    FollowsAt view here outer (m >>= f) view' reports := by
  intro shows
  have quiet := h (here.scoping outer)
  have second := h' (m.run (here.scoping outer)).value shows
  rw [run_bind, quiet.1]
  obtain ⟨there, hstate, shows', hreports⟩ := second
  refine ⟨there, hstate, shows', ?_⟩
  rw [List.filter_append, quiet.2, hreports]
  rfl

/-- A name is looked up where its declaration can be seen. -/
theorem followsAt_visibleVariable {name : String} {f : Option Variable → Resolving β}
    (h : ∀ found, (here.rows outer).lookup? name = found →
      (found.isSome = (view.find? name).isSome) →
        FollowsAt view here outer (f found) view' reports) :
    FollowsAt view here outer (visibleVariable name >>= f) view' reports := by
  intro shows
  have same : ((here.rows outer).lookup? name).isSome = (view.find? name).isSome := by
    simpa using congrArg Option.isSome (shows.lookup? name)
  obtain ⟨there, hstate, shows', hreports⟩ := h _ rfl same shows
  rw [run_bind, run_visibleVariable]
  exact ⟨there, hstate, shows', hreports⟩

/-- A function is looked up among those of the language. -/
theorem followsAt_visibleFunction {name : String} {f : Option Function → Resolving β}
    (h : FollowsAt view here outer (f (Function.builtins.find? (·.name == name))) view' reports) :
    FollowsAt view here outer (visibleFunction name >>= f) view' reports := by
  intro shows
  obtain ⟨there, hstate, shows', hreports⟩ := h shows
  rw [run_bind, run_visibleFunction]
  exact ⟨there, hstate, shows', hreports⟩

/-- A variable is introduced. -/
theorem followsAt_newVariable {name : String} {type : Ty} {isReadOnly : Bool}
    {f : Variable → Resolving β}
    (h : FollowsAt view.introduce ⟨here.vars, here.nextId + 1⟩ outer
      (f (here.next name type isReadOnly)) view' reports) :
    FollowsAt view here outer (newVariable name type isReadOnly >>= f) view' reports := by
  intro shows
  obtain ⟨there, hstate, shows', hreports⟩ := h shows.introduce
  rw [run_bind, run_newVariable]
  exact ⟨there, hstate, shows', hreports⟩

/-- A variable is declared, unless the scope holds one of its name. -/
theorem followsAt_declare {name : String} {type : Ty} {isReadOnly : Bool} {f : Bool → Resolving β}
    (h : ∀ declared there, FollowsAt (view.declare name) there outer (f declared) view' reports) :
    FollowsAt view.introduce ⟨here.vars, here.nextId + 1⟩ outer
      (declare (here.next name type isReadOnly) >>= f) view' reports := by
  intro shows
  have before : view.Shows here outer := ⟨Nat.succ.inj shows.nextId, shows.here, shows.outer⟩
  rw [run_bind, run_declare]
  by_cases taken : (here.vars.find? (·.name == name)).isSome = true
  · have held : (here.vars.find? (·.name == (here.next name type isReadOnly).name)).isSome = true :=
      taken
    rw [if_pos held]
    obtain ⟨there, hstate, shows', hreports⟩ := h false _ (before.declare_taken taken)
    exact ⟨there, hstate, shows', hreports⟩
  · have held :
        ¬ (here.vars.find? (·.name == (here.next name type isReadOnly).name)).isSome = true := taken
    have free : here.vars.find? (·.name == name) = none := by simpa using taken
    rw [if_neg held]
    obtain ⟨there, hstate, shows', hreports⟩ := h true _ (before.declare free)
    exact ⟨there, hstate, shows', hreports⟩

/-- What is done in a scope of its own is out of sight behind it. -/
theorem FollowsAt.inScope {inner : View}
    (h : FollowsAt view.enter (.fresh here.nextId) (here.rows outer) m inner reports) :
    FollowsAt view here outer (inScope m) (view.leave inner) reports := by
  intro shows
  obtain ⟨there, hstate, shows', hreports⟩ := h shows.enter
  refine ⟨here.behind there, ?_, shows.leave shows', ?_⟩
  · simp only [Resolving.inScope, run_bind, run_openScope, hstate, run_closeScope, run_pure]
  · rw [diagnostics_inScope, hreports]

end Resolving

namespace Syntax

open Resolving

variable {here : Frame} {outer : Rows}

/-- Finding the target of an assignment declares its name if that has no
declaration. -/
theorem Expr.followsAt_assignee (view : View) (name : String) (type : Ty) :
    FollowsAt view here outer (Expr.resolve.assignee name type) (view.assign name) [] := by
  refine followsAt_visibleVariable fun found hfound same => ?_
  rw [View.assign, ← same]
  cases found with
  | some v => exact (quiet_pure v).followsAt
  | none =>
    refine followsAt_newVariable (followsAt_declare fun declared there => ?_)
    exact (quiet_pure _).followsAt

/-- The last step of an assignment is quiet. -/
theorem Expr.quiet_assigned (identifier equals : Token) (span : Span) (target : Variable)
    (bound : Bound.Expr) : Quiet (assigned identifier equals span target bound) := by
  have fits : Quiet (fitted span target bound) := by
    unfold fitted
    split
    · exact (quiet_report rfl).bind fun _ => quiet_pure _
    · exact quiet_pure _
  unfold assigned
  split
  · exact (quiet_report rfl).bind fun _ => fits
  · exact fits

/-- An assignment is meaningless only if the types do not fit. -/
theorem Expr.value_assigned (identifier equals : Token) (span : Span) (target : Variable)
    (bound : Bound.Expr) (s : Scoping) :
    ((assigned identifier equals span target bound).run s).value = .assignment target bound ∨
      ((assigned identifier equals span target bound).run s).value = .error ∧
        bound.type ≠ target.type := by
  have fits (s : Scoping) :
      ((fitted span target bound).run s).value = .assignment target bound ∨
        ((fitted span target bound).run s).value = .error ∧ bound.type ≠ target.type := by
    unfold fitted
    split
    next apart => exact .inr ⟨rfl, apart.2.2⟩
    next => exact .inl rfl
  unfold assigned
  split
  · exact fits s
  · exact fits s

mutual

/-- Resolving an expression follows the view. -/
theorem Expr.followsAt_resolve (e : Expr) (view : View) (here : Frame) :
    FollowsAt view here outer e.resolve (e.behind view) (e.unknown view) := by
  cases e with
  | literal token => exact (quiet_pure _).followsAt
  | name identifier =>
    rw [Expr.resolve, Expr.unknown]
    by_cases missing : identifier.isMissing = true
    · rw [if_pos missing, missing, Bool.true_or, if_pos rfl]
      exact (quiet_pure _).followsAt
    · rw [if_neg missing, Bool.eq_false_iff.2 missing, Bool.false_or]
      refine followsAt_visibleVariable fun found hfound same => ?_
      rw [← same]
      cases found with
      | some v => exact (quiet_pure _).followsAt
      | none =>
        intro shows
        exact ⟨here, rfl, shows, rfl⟩
  | assignment identifier equals value =>
    have whole := (value.followsAt_resolve view here).bind fun part there =>
      (quiet_asValue value.span part).then fun bound =>
        (Expr.followsAt_assignee (value.behind view) identifier.text bound.type).before
          fun target => Expr.quiet_assigned identifier equals value.span target bound
    rwa [List.append_nil] at whole
  | unary operator operand =>
    rw [Expr.resolve]
    refine (operand.followsAt_resolve view here).before fun part => ?_
    refine (quiet_asValue operand.span part).bind fun bound => ?_
    split
    · exact quiet_pure _
    · split
      · exact quiet_pure _
      · exact (quiet_report rfl).bind fun _ => quiet_pure _
  | binary left operator right =>
    rw [Expr.resolve]
    refine (left.followsAt_resolve view here).bind fun part there => ?_
    refine (quiet_asValue left.span part).then fun boundLeft => ?_
    refine (right.followsAt_resolve _ there).before fun part' => ?_
    refine (quiet_asValue right.span part').bind fun boundRight => ?_
    split
    · exact quiet_pure _
    · split
      · exact quiet_pure _
      · exact (quiet_report rfl).bind fun _ => quiet_pure _
  | grouped opening inner closing =>
    have part := inner.followsAt_resolve view here
    exact part.before fun bound => quiet_asValue _ bound
  | call identifier opening arguments closing =>
    rw [Expr.resolve, Expr.unknown]
    refine (Expr.followsAt_resolveAll arguments view here).bind fun bound there => ?_
    refine followsAt_visibleFunction ?_
    cases Function.builtins.find? (·.name == identifier.text) with
    | none =>
      intro shows
      exact ⟨there, rfl, shows, rfl⟩
    | some f =>
      refine Quiet.followsAt ?_
      dsimp only
      split
      · exact (quiet_report rfl).bind fun _ => quiet_pure _
      · exact (quiet_argumentsFit _ _).bind fun _ => quiet_pure _

/-- Resolving a row of expressions follows the view. -/
theorem Expr.followsAt_resolveAll (es : List Expr) (view : View) (here : Frame) :
    FollowsAt view here outer (Expr.resolveAll es) (Expr.behindAll es view)
      (Expr.unknownAll es view) := by
  cases es with
  | nil => exact (quiet_pure []).followsAt
  | cons e es =>
    rw [Expr.resolveAll]
    refine (e.followsAt_resolve view here).bind fun part there => ?_
    refine (quiet_asValue e.span part).then fun bound => ?_
    have others := Expr.followsAt_resolveAll es (e.behind view) there
    exact others.before fun rest => quiet_pure _

end

/-- Resolving an expression that must have a value follows the view. -/
theorem Expr.followsAt_resolveValue (e : Expr) (view : View) (here : Frame) :
    FollowsAt view here outer e.resolveValue (e.behind view) (e.unknown view) :=
  (e.followsAt_resolve view here).before fun part => quiet_asValue _ part

/-- Resolving an expression that must be of a type follows the view. -/
theorem Expr.followsAt_resolveAs (type : Ty) (e : Expr) (view : View) (here : Frame) :
    FollowsAt view here outer (e.resolveAs type) (e.behind view) (e.unknown view) :=
  (e.followsAt_resolveValue view here).before fun bound => quiet_asType _ _ bound

mutual

/-- Resolving a statement follows the view. -/
theorem Stmt.followsAt_resolve (s : Stmt) (view : View) (here : Frame) (outer : Rows) :
    FollowsAt view here outer s.resolve (s.behind view) (s.unknown view) := by
  cases s with
  | block opening statements closing =>
    have parts := Stmt.followsAt_resolveAll statements view.enter (.fresh here.nextId)
      (here.rows outer)
    exact parts.inScope.before fun bounds => quiet_pure _
  | declaration keyword identifier equals initializer =>
    rw [Stmt.resolve]
    have site (bound : Bound.Expr) (there : Frame) :
        FollowsAt (initializer.behind view) there outer (do
          let v ← newVariable identifier.text bound.type (keyword.kind == .letWord)
          unless identifier.isMissing do
            unless ← declare v do
              Reporting.report (.variableAlreadyDeclared identifier.text) identifier.span
          return Bound.Stmt.declaration v bound)
          ((initializer.behind view).declareAt identifier) [] := by
      refine followsAt_newVariable ?_
      rw [View.declareAt]
      dsimp only
      split
      · exact (quiet_pure _).followsAt
      · refine followsAt_declare fun declared there => ?_
        refine Quiet.followsAt ?_
        split
        · exact quiet_pure _
        · exact (quiet_report rfl).bind fun _ => quiet_pure _
    have whole := (initializer.followsAt_resolveValue view here).bind site
    rwa [List.append_nil] at whole
  | ifThen keyword condition consequence =>
    refine (condition.followsAt_resolveAs .bool view here).bind fun test there => ?_
    have part := consequence.followsAt_resolve (condition.behind view).enter (.fresh there.nextId)
      (there.rows outer)
    exact part.inScope.before fun bound => quiet_pure _
  | ifElse keyword condition consequence elseWord alternative =>
    refine (condition.followsAt_resolveAs .bool view here).bind fun test there => ?_
    have part := consequence.followsAt_resolve (condition.behind view).enter (.fresh there.nextId)
      (there.rows outer)
    refine part.inScope.bind fun bound there' => ?_
    have part' := alternative.followsAt_resolve
      ((condition.behind view).inside consequence.behind).enter (.fresh there'.nextId)
      (there'.rows outer)
    exact part'.inScope.before fun bound' => quiet_pure _
  | whileLoop keyword condition body =>
    refine (condition.followsAt_resolveAs .bool view here).bind fun test there => ?_
    have part := body.followsAt_resolve (condition.behind view).enter (.fresh there.nextId)
      (there.rows outer)
    exact part.inScope.before fun bound => quiet_pure _
  | forLoop keyword identifier equals lower toWord upper body =>
    refine (lower.followsAt_resolveAs .int view here).bind fun first there => ?_
    refine (upper.followsAt_resolveAs .int _ there).bind fun last there' => ?_
    refine FollowsAt.inScope (followsAt_newVariable ?_)
    dsimp only
    split
    next missing =>
      rw [View.declareAt, if_pos missing]
      exact (body.followsAt_resolve _ _ _).before fun bound => quiet_pure _
    next present =>
      rw [View.declareAt, if_neg present]
      refine followsAt_declare fun declared there'' => ?_
      exact (body.followsAt_resolve _ _ _).before fun bound => quiet_pure _
  | expression inner =>
    rw [Stmt.resolve]
    exact (inner.followsAt_resolve view here).before fun bound => quiet_pure _

/-- Resolving a row of statements follows the view. -/
theorem Stmt.followsAt_resolveAll (ss : List Stmt) (view : View) (here : Frame) (outer : Rows) :
    FollowsAt view here outer (Stmt.resolveAll ss) (Stmt.behindAll ss view)
      (Stmt.unknownAll ss view) := by
  cases ss with
  | nil => exact (quiet_pure []).followsAt
  | cons s ss =>
    refine (s.followsAt_resolve view here outer).bind fun bound there => ?_
    have others := Stmt.followsAt_resolveAll ss (s.behind view) there outer
    exact others.before fun rest => quiet_pure _

end

end Syntax

end Scriptlet
