import Scriptlet.Proofs.Resolving.Submissions
import Scriptlet.Proofs.Scoping.Spots

/-!
# Names mean the declarations that can be seen

At every part that is met while a submission is resolved, a name means the
variable of its first declaration in the innermost scope that has one, an
assignment to a name without a declaration declares it, and every declaration
introduces a variable of its own. Behind a chain of submissions the scopes around
a submission are the global scopes of the chain, the newest innermost.
-/

namespace Scriptlet

open Reporting Resolving Syntax

/-- A name is looked up where its declaration can be seen. -/
def Spot.Sees (spot : Spot) : Prop :=
  ∀ name, ((visibleVariable name).run spot.state).value.map Variable.id =
    (spot.view.find? name).map Declaration.id

/-- A name means the variable of the declaration that can be seen. If there is
none, that is reported and a zero stands in. -/
def NameResolved (identifier : Token) (view : View) (s : Scoping) : Prop :=
  identifier.isMissing = false →
    match view.find? identifier.text with
    | some d => ∃ v : Variable, v.id = d.id ∧ v.name = identifier.text ∧
        (Expr.name identifier).resolve.run s = ⟨.name v, s, []⟩
    | none => (Expr.name identifier).resolve.run s =
        ⟨.literal (.int 0), s, [undefinedName identifier]⟩

/-- An assignment gives the variable of the declaration a value that can be seen
behind the value. If there is none, it declares the name in the innermost scope,
with the type of the value and an identity that no variable had before. It has
no meaning only if the types do not fit. -/
def AssignmentResolved (identifier equals : Token) (value : Expr) (view : View) (s : Scoping) :
    Prop :=
  let valued := value.resolveValue.run s
  let behind := value.behind view
  let target := (Expr.resolve.assignee identifier.text valued.value.type).run valued.state
  let whole := (Expr.assignment identifier equals value).resolve.run s
  (whole.value = .assignment target.value valued.value ∨
    whole.value = .error ∧ valued.value.type ≠ target.value.type) ∧
  whole.state = target.state ∧
  match behind.find? identifier.text with
  | some d => target.value.id = d.id ∧ target.value.name = identifier.text ∧
      target.state = valued.state
  | none => target.value = ⟨behind.nextId, identifier.text, valued.value.type, false⟩ ∧
      behind.nextId ∉ behind.introduced ∧
      ∃ tree, valued.state.tree.declareVariable valued.state.current target.value = (tree, true) ∧
        target.state = ⟨tree, valued.state.current, behind.nextId + 1⟩

/-- A call is one of the function of the language that has the name, whatever can
be seen from it. If there is none, that is reported and the call has no meaning.
Otherwise it has none only if the arguments do not fit. -/
def CallResolved (identifier opening closing : Token) (arguments : List Expr) (s : Scoping) :
    Prop :=
  let bound := (Expr.resolveAll arguments).run s
  let whole := (Expr.call identifier opening arguments closing).resolve.run s
  match Function.builtins.find? (·.name == identifier.text) with
  | some f =>
    (whole.value = .call f (bound.value.map Prod.snd) ∨ whole.value = .error ∧
      bound.value.map (·.2.type) ≠ f.parameters.map Parameter.type) ∧
    whole.diagnostics.filter Diagnostic.isUnknown = bound.diagnostics.filter Diagnostic.isUnknown
  | none => whole.value = .error ∧
      whole.diagnostics = bound.diagnostics ++ [undefinedFunction identifier]

/-- A declaration introduces a variable with an identity that no variable had
before. -/
def DeclarationResolved (keyword identifier equals : Token) (initializer : Expr) (view : View)
    (s : Scoping) : Prop :=
  let valued := initializer.resolveValue.run s
  let behind := initializer.behind view
  behind.nextId ∉ behind.introduced ∧
    ((Stmt.declaration keyword identifier equals initializer).resolve.run s).value =
      .declaration
        ⟨behind.nextId, identifier.text, valued.value.type, keyword.kind == .letWord⟩ valued.value

/-- A counting loop introduces a variable with an identity that no variable had
before. -/
def LoopResolved (keyword identifier equals toWord : Token) (lower upper : Expr) (body : Stmt)
    (view : View) (s : Scoping) : Prop :=
  let behind := upper.behind (lower.behind view)
  behind.nextId ∉ behind.introduced ∧ ∃ first last round,
    ((Stmt.forLoop keyword identifier equals lower toWord upper body).resolve.run s).value =
      .forLoop ⟨behind.nextId, identifier.text, .int, true⟩ first last round

/-- The part of a spot is resolved as what can be seen from it tells. -/
def Spot.Resolved (spot : Spot) : Prop :=
  match spot.part with
  | .expr (.name identifier) => NameResolved identifier spot.view spot.state
  | .expr (.assignment identifier equals value) =>
    AssignmentResolved identifier equals value spot.view spot.state
  | .expr (.call identifier opening arguments closing) =>
    CallResolved identifier opening closing arguments spot.state
  | .stmt (.declaration keyword identifier equals initializer) =>
    DeclarationResolved keyword identifier equals initializer spot.view spot.state
  | .stmt (.forLoop keyword identifier equals lower toWord upper body) =>
    LoopResolved keyword identifier equals toWord lower upper body spot.view spot.state
  | _ => True

variable {earlier : List Nat} {view : View} {here : Frame} {outer : Rows} {s : Scoping}

/-- Where the scopes hold what can be seen, names are looked up so. -/
theorem Spot.Sound.sees {spot : Spot} (h : spot.Sound earlier) : spot.Sees := by
  intro name
  obtain ⟨here, outer, hstate, shows⟩ := h.shows
  rw [hstate, run_visibleVariable]
  exact shows.lookup? name

/-- What is looked up carries the name it was looked up by. -/
theorem lookup?_name {rows : Rows} {name : String} {v : Variable}
    (h : rows.lookup? name = some v) : v.name = name := (Rows.mem_of_lookup? h).2

theorem nameResolved (shows : view.Shows here outer) (identifier : Token) :
    NameResolved identifier view (here.scoping outer) := by
  intro present
  have same := shows.lookup? identifier.text
  split
  next d hd =>
    rw [hd] at same
    obtain ⟨v, hv, hid⟩ := Option.map_eq_some_iff.1 same
    refine ⟨v, hid, lookup?_name hv, ?_⟩
    simp [Expr.resolve, present, hv]
  next hnone =>
    have absent := shows.lookup?_eq_none_iff.2 hnone
    simp [Expr.resolve, present, absent, undefinedName]

theorem assignmentResolved (shows : view.Shows here outer) (distinct : view.Distinct earlier)
    (identifier equals : Token) (value : Expr) :
    AssignmentResolved identifier equals value view (here.scoping outer) := by
  obtain ⟨there, hstate, shows', -⟩ := value.followsAt_resolveValue view here shows
  have apart := (value.distinct_behind distinct).fresh
  have same := shows'.lookup? identifier.text
  rw [AssignmentResolved, Expr.resolve_assignment]
  simp only [run_bind]
  generalize value.resolveValue.run (here.scoping outer) = valued at hstate ⊢
  rw [hstate]
  refine ⟨Expr.value_assigned _ _ _ _ _ _, (Expr.quiet_assigned _ _ _ _ _ _).1, ?_⟩
  split
  next d hd =>
    rw [hd] at same
    obtain ⟨v, hv, hid⟩ := Option.map_eq_some_iff.1 same
    simp [Expr.resolve.assignee, hv, hid, lookup?_name hv]
  next hnone =>
    have absent := shows'.lookup?_eq_none_iff.2 hnone
    have free := Rows.find?_of_lookup?_eq_none absent
    have declared := Rows.declareVariable_tree there.vars outer
      (there.next identifier.text valued.value.type false)
    rw [if_neg (by simp [Frame.next, free])] at declared
    have htarget := run_declare_next there outer identifier.text valued.value.type false free
    have hrun : (Expr.resolve.assignee identifier.text valued.value.type).run
        (there.scoping outer) = ⟨there.next identifier.text valued.value.type false,
          (there.declare identifier.text valued.value.type false).scoping outer, []⟩ := by
      simp [Expr.resolve.assignee, absent, htarget]
    rw [hrun, ← shows'.nextId]
    exact ⟨rfl, shows'.nextId ▸ apart, _, declared, rfl⟩

theorem callResolved (shows : view.Shows here outer) (identifier opening closing : Token)
    (arguments : List Expr) :
    CallResolved identifier opening closing arguments (here.scoping outer) := by
  obtain ⟨there, hstate, shows', -⟩ := Expr.followsAt_resolveAll arguments view here shows
  rw [CallResolved, Expr.resolve]
  simp only [run_bind]
  generalize (Expr.resolveAll arguments).run (here.scoping outer) = bound at hstate ⊢
  rw [hstate, run_visibleFunction]
  cases Function.builtins.find? (·.name == identifier.text) with
  | none => exact ⟨rfl, rfl⟩
  | some f =>
    dsimp only
    by_cases hlength : bound.value.length = f.parameters.length
    · have quiet := quiet_argumentsFit bound.value f.parameters (there.scoping outer)
      rw [if_neg (not_not_intro hlength)]
      simp only [run_bind, run_pure, List.filter_append, List.nil_append, List.append_nil]
      refine ⟨?_, by rw [quiet.2, List.append_nil]⟩
      cases fit : ((argumentsFit bound.value f.parameters).run (there.scoping outer)).value with
      | true => exact .inl rfl
      | false =>
        refine .inr ⟨rfl, fun types => ?_⟩
        rw [run_argumentsFit types] at fit
        cases fit
    · rw [if_pos hlength]
      refine ⟨.inr ⟨rfl, fun types => ?_⟩, ?_⟩
      · have lengths := congrArg List.length types
        rw [List.length_map, List.length_map] at lengths
        exact hlength lengths
      · simp [Diagnostic.isUnknown]

theorem declarationResolved (shows : view.Shows here outer) (distinct : view.Distinct earlier)
    (keyword identifier equals : Token) (initializer : Expr) :
    DeclarationResolved keyword identifier equals initializer view (here.scoping outer) := by
  obtain ⟨there, hstate, shows', -⟩ := initializer.followsAt_resolveValue view here shows
  have apart := (initializer.distinct_behind distinct).fresh
  refine ⟨apart, ?_⟩
  rw [Stmt.resolve, ← shows'.nextId]
  simp only [run_bind]
  generalize initializer.resolveValue.run (here.scoping outer) = valued at hstate ⊢
  rw [hstate, run_newVariable]
  dsimp only
  by_cases missing : identifier.isMissing = true
  · rw [if_pos missing]
    rfl
  · rw [if_neg missing]
    rw [run_bind]
    dsimp only
    split <;> rfl

theorem loopResolved (shows : view.Shows here outer) (distinct : view.Distinct earlier)
    (keyword identifier equals toWord : Token) (lower upper : Expr) (body : Stmt) :
    LoopResolved keyword identifier equals toWord lower upper body view
      (here.scoping outer) := by
  obtain ⟨there, hstate, shows', -⟩ := lower.followsAt_resolveAs .int view here shows
  obtain ⟨there', hstate', shows'', -⟩ := upper.followsAt_resolveAs .int _ there shows'
  have apart := (upper.distinct_behind (lower.distinct_behind distinct)).fresh
  refine ⟨apart, ?_⟩
  rw [Stmt.resolve, ← shows''.nextId]
  simp only [run_bind, inScope]
  rw [hstate, hstate', run_openScope]
  dsimp only
  rw [run_newVariable]
  dsimp only
  by_cases missing : identifier.isMissing = true
  · rw [if_pos missing]
    exact ⟨_, _, _, rfl⟩
  · rw [if_neg missing]
    exact ⟨_, _, _, rfl⟩

/-- A part that is met soundly is resolved as what can be seen from it tells. -/
theorem Spot.Sound.resolved {spot : Spot} (h : spot.Sound earlier) : spot.Resolved := by
  obtain ⟨part, view, s⟩ := spot
  obtain ⟨⟨here, outer, hstate, shows⟩, distinct⟩ := h
  obtain rfl : s = here.scoping outer := hstate
  rw [Spot.Resolved]
  split
  next => exact nameResolved shows _
  next => exact assignmentResolved shows distinct _ _ _
  next => exact callResolved shows _ _ _ _
  next => exact declarationResolved shows distinct _ _ _ _
  next => exact loopResolved shows distinct _ _ _ _ _ _ _
  next => trivial

namespace Submission

/-- The state in which a submission begins to be resolved. -/
def beginning (earlier : List Submission) (nextId : Nat) : Scoping :=
  let (outer, parent) := outerScopes earlier
  let (tree, scope) := outer.push parent
  ⟨tree, scope, nextId⟩

/-- Chains of submissions, listed from the newest on, each of them compiled behind
the others, whatever is wrong with its text. The view is the one in front of
the next submission. -/
inductive Compiled : List Submission → View → Prop where
  | nil (nextId : Nat) : Compiled [] ⟨[], [], [], nextId⟩
  | cons {earlier : List Submission} {view : View} {nextId : Nat} (chain : Compiled earlier view)
      (above : view.nextId ≤ nextId) (source : Source) :
      Compiled ((compile earlier nextId source).1 :: earlier)
        (source.script.statement.behind { view with nextId }).enter

/-- The spot of a submission behind a chain. -/
def spot (earlier : List Submission) (view : View) (nextId : Nat) (source : Source) : Spot :=
  ⟨.stmt source.script.statement, { view with nextId }, beginning earlier nextId⟩

variable {chain : List Submission} {nextId : Nat}

/-- A submission is what resolving makes of its statement from the beginning. -/
theorem compile_eq_run (earlier : List Submission) (nextId : Nat) (source : Source) :
    (compile earlier nextId source).1.statement =
        (source.script.statement.resolve.run (beginning earlier nextId)).value ∧
      (compile earlier nextId source).1.resolveDiagnostics =
        (source.script.statement.resolve.run (beginning earlier nextId)).diagnostics ∧
      (compile earlier nextId source).2 =
        (source.script.statement.resolve.run (beginning earlier nextId)).state.nextId :=
  ⟨rfl, rfl, rfl⟩

/-- In front of a submission, the rows of the chain hold what can be seen. -/
structure Seen (chain : List Submission) (view : View) : Prop where
  here : view.here = []
  outer : List.Forall₂ Holds (rows chain) view.outer
  distinct : view.Distinct []

/-- The names of every row of a chain are different. -/
theorem Seen.names_nodup (h : Seen chain view) :
    ∀ vars ∈ rows chain, (vars.map Variable.name).Nodup := by
  have hold := h.outer
  generalize rows chain = rows, view.outer = outer at hold
  induction hold with
  | nil => exact fun _ hvars => absurd hvars List.not_mem_nil
  | cons holds _ ih => exact List.forall_mem_cons.2 ⟨holds.distinct, ih⟩

/-- A submission begins in a fresh scope inside the rows of the chain. -/
theorem Seen.beginning_eq (h : Seen chain view) (nextId : Nat) :
    beginning chain nextId = (Frame.fresh nextId).scoping (rows chain) := by
  have hlength : (rows chain).length = chain.length := List.length_map _
  have pushed := Rows.push_tree (rows chain)
  rw [hlength] at pushed
  simp only [beginning, outerScopes_eq h.names_nodup, pushed, Frame.scoping, hlength]
  rfl

/-- From the beginning of a submission, the rows of the chain can be seen. -/
theorem Seen.shows (h : Seen chain view) (nextId : Nat) :
    View.Shows { view with nextId } (.fresh nextId) (rows chain) := by
  refine ⟨rfl, ?_, h.outer⟩
  rw [h.here]
  exact holds_nil

/-- The identities that a submission leaves over are those of the view behind it. -/
theorem Seen.nextId_compile (h : Seen chain view) (nextId : Nat) (source : Source) :
    (compile chain nextId source).2 =
      (source.script.statement.behind { view with nextId }).nextId := by
  obtain ⟨there, hstate, shows', -⟩ :=
    source.script.statement.followsAt_resolve { view with nextId } _ _ (h.shows nextId)
  rw [(compile_eq_run chain nextId source).2.2, h.beginning_eq nextId, hstate]
  exact shows'.nextId

/-- What can be seen behind a chain can be seen behind one more submission. -/
theorem Seen.compile (h : Seen chain view) (above : view.nextId ≤ nextId) (source : Source) :
    Seen ((compile chain nextId source).1 :: chain)
      (source.script.statement.behind { view with nextId }).enter := by
  obtain ⟨there, hstate, shows', -⟩ :=
    source.script.statement.followsAt_resolve { view with nextId } _ _ (h.shows nextId)
  have hlength : (rows chain).length = chain.length := List.length_map _
  have held := Rows.varsIn_tree there.vars (rows chain)
  have globals : (Submission.compile chain nextId source).1.globals = there.vars := by
    rw [compile_eq h.names_nodup]
    dsimp only
    rw [hstate, ← hlength]
    exact held
  have distinct := source.script.statement.distinct_behind (h.distinct.raise above)
  refine ⟨rfl, ?_, distinct.enter⟩
  rw [rows, List.map_cons, globals]
  exact .cons shows'.here shows'.outer

/-- Behind every chain, its global variables can be seen. -/
theorem Compiled.seen (h : Compiled chain view) : Seen chain view := by
  induction h with
  | nil nextId =>
    have distinct : View.Distinct [] ⟨[], [], [], nextId⟩ :=
      ⟨List.nil_prefix, List.nodup_nil, fun _ hid => absurd hid List.not_mem_nil⟩
    exact ⟨rfl, .nil, distinct⟩
  | cons _ above source ih => exact ih.compile above source

/-- Names are scoped by the tree. Behind any chain of submissions, whatever is
wrong with them or with the source, every part of the source is resolved as what
can be seen from it tells. What is reported there is reported for the submission,
and what it is resolved to is a part of the statement of the submission, unless
something takes the place of a part around it that is one. The names reported as
unknown are those that mean nothing by the view, in their order; all variables that
the chain and then the submission introduce have different identities; and the next
submission goes on with the view behind this one. -/
theorem resolves_lexically (compiled : Compiled chain view) (above : view.nextId ≤ nextId)
    (source : Source) :
    (∀ met, (spot chain view nextId source).Meets met → met.Sees ∧ met.Resolved ∧
      view.introduced <+: met.view.introduced ∧
      met.reports <:+: (compile chain nextId source).1.resolveDiagnostics ∧
      let whole := Bound.Part.stmt (compile chain nextId source).1.statement
      (whole.Includes met.value ∨ ∃ around, (spot chain view nextId source).Meets around ∧
        around.Meets met ∧ whole.Includes around.value ∧ around.Replaced)) ∧
    (compile chain nextId source).1.resolveDiagnostics.filter Diagnostic.isUnknown =
      source.script.statement.unknown { view with nextId } ∧
    view.introduced <+: (source.script.statement.behind { view with nextId }).introduced ∧
    (source.script.statement.behind { view with nextId }).introduced.Nodup ∧
    (compile chain nextId source).2 =
      (source.script.statement.behind { view with nextId }).nextId := by
  have seen := compiled.seen
  have distinct : View.Distinct view.introduced { view with nextId } :=
    (seen.distinct.from_here).raise above
  have shows := seen.shows nextId
  have hbeginning := seen.beginning_eq nextId
  have reported := (compile_eq_run chain nextId source).2.1
  have sound : (spot chain view nextId source).Sound view.introduced :=
    ⟨⟨_, _, hbeginning, shows⟩, distinct⟩
  have ends := source.script.statement.distinct_behind distinct
  refine ⟨fun met meets => ?_, ?_, ends.known, ends.nodup, seen.nextId_compile nextId source⟩
  · have inside := meets.sound sound
    refine ⟨inside.sees, inside.resolved, inside.distinct.known, ?_, meets.includes⟩
    rw [reported]
    exact meets.reports
  · obtain ⟨there, -, -, hreports⟩ :=
      source.script.statement.followsAt_resolve { view with nextId } _ _ shows
    rw [reported, hbeginning]
    exact hreports

/-- A submission that declares a variable. -/
def shadowedSample : Submission := (compile [] 0 (.ofText "a = 1")).1

/-- A source that hides the variable in a scope of its own, and declares another
name both in that scope and behind it. -/
def shadowingSource : Source :=
  .ofText "\x7b b = a \x7b var a = b c = a \x7d c = a print = a() d \x7d"

/-- Behind the submission, five more variables are introduced; the second
declaration of a name that is out of sight is one of them, and so is a variable
with the name of a function. A variable is no function, and a name without a
declaration means nothing. -/
theorem resolves_lexically_shadowingSample :
    ∃ view, Compiled [shadowedSample] view ∧ view.introduced = [0] ∧
      (shadowingSource.script.statement.behind { view with nextId := 1 }).introduced =
        [0, 1, 2, 3, 4, 5] ∧
      (shadowingSource.script.statement.behind { view with nextId := 1 }).introduced.Nodup ∧
      ((compile [shadowedSample] 1 shadowingSource).1.resolveDiagnostics.filter
        Diagnostic.isUnknown).map Diagnostic.problem =
          [.undefinedFunction "a", .undefinedName "d"] := by
  have chain : Compiled [shadowedSample] _ := .cons (.nil 0) (Nat.le_refl 0) (.ofText "a = 1")
  have lexical := resolves_lexically chain (Nat.le_refl 1) shadowingSource
  refine ⟨_, chain, rfl, rfl, lexical.2.2.2.1, ?_⟩
  rw [lexical.2.1]
  rfl

end Submission

end Scriptlet
