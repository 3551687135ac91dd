import Mathlib.Data.List.Forall2
import Scriptlet.Proofs.Replacing.Resolving
import Scriptlet.Proofs.Resolving.Surroundings

/-!
# What stands in for a faulty part

Resolving replaces a faulty part by something that stands in for it. As long as that has
no type, or the type of a part that is not faulty, nothing around it tells the two apart:
where the latter is resolved without a report, the former causes none either.
-/

namespace Scriptlet

/-- A type that causes no report where another one causes none. -/
def Ty.StandsFor (a b : Ty) : Prop := a = .error ∨ a = b

/-- An expression whose type causes no report where that of another one causes none. -/
abbrev Bound.Expr.StandsFor (e e' : Bound.Expr) : Prop := e.type.StandsFor e'.type

/-- A variable that may be used wherever another one may be. -/
def Variable.StandsFor (v w : Variable) : Prop :=
  v.isReadOnly = w.isReadOnly ∧ v.type.StandsFor w.type

namespace Resolving

open Reporting

/-- Resolving in a scope leads to that scope again, with more variables in it. -/
def Stays {α : Type} (m : Resolving α) : Prop :=
  ∀ (here : Frame) (outer : Rows), ∃ there : Frame,
    (m.run (here.scoping outer)).state = there.scoping outer

/-- All steps of resolving stay in the scope. -/
theorem closed_stays : Closed (fun _ => True) (fun _ => Stays) where
  pure _ here outer := ⟨here, rfl⟩
  bind first second here outer := by
    obtain ⟨there, state⟩ := first here outer
    rw [run_bind, state]
    exact second _ there outer
  report _ _ _ here outer := ⟨here, rfl⟩
  visibleVariable name here outer := ⟨here, by rw [run_visibleVariable]⟩
  visibleFunction name here outer := ⟨here, by rw [run_visibleFunction]⟩
  newVariable _ _ _ here outer := ⟨⟨here.vars, here.nextId + 1⟩, rfl⟩
  declare v here outer := by
    rw [run_declare]
    split
    · exact ⟨here, rfl⟩
    · exact ⟨⟨here.vars ++ [v], here.nextId⟩, rfl⟩
  inScope part here outer := by
    obtain ⟨inner, state⟩ := part (.fresh here.nextId) (here.rows outer)
    refine ⟨here.behind inner, ?_⟩
    simp only [Resolving.inScope, run_bind, run_openScope, state, run_closeScope, run_pure]

/-- In two states of a scope some names are seen alike: each is unknown in both, or what
it is in the one stands for what it is in the other. -/
def Resembles (names : List String) (outer : Rows) (σ σ' : Scoping) : Prop :=
  ∃ here there : Frame, σ = here.scoping outer ∧ σ' = there.scoping outer ∧
    ∀ name ∈ names, Option.Rel Variable.StandsFor ((here.rows outer).lookup? name)
      ((there.rows outer).lookup? name)

/-- Where some names are seen alike and the second computation reports nothing, the first
one reports nothing either. Its result is related to that of the other, and the names are
seen alike again. -/
def Echoes {α β : Type} (names : List String) (outer : Rows) (V : α → β → Prop)
    (m : Resolving α) (m' : Resolving β) : Prop :=
  ∀ σ σ', Resembles names outer σ σ' → (m'.run σ').diagnostics = [] →
    (m.run σ).diagnostics = [] ∧ V (m.run σ).value (m'.run σ').value ∧
      Resembles names outer (m.run σ).state (m'.run σ').state

variable {α β γ δ : Type} {names : List String} {outer : Rows} {V : α → β → Prop}
  {W : γ → δ → Prop}

/-- Related results echo each other. -/
theorem Echoes.pure {a : α} {b : β} (related : V a b) :
    Echoes names outer V (pure a) (pure b) := fun _ _ alike _ => ⟨rfl, related, alike⟩

/-- A sequence echoes another one if its parts do. -/
theorem Echoes.bind {m : Resolving α} {m' : Resolving β} {f : α → Resolving γ}
    {f' : β → Resolving δ} (first : Echoes names outer V m m')
    (second : ∀ a b, V a b → Echoes names outer W (f a) (f' b)) :
    Echoes names outer W (m >>= f) (m' >>= f') := by
  intro σ σ' alike clean
  rw [run_bind, List.append_eq_nil_iff] at clean
  obtain ⟨silent, related, alike'⟩ := first σ σ' alike clean.1
  obtain ⟨silent', result, alike''⟩ := second _ _ related _ _ alike' clean.2
  rw [run_bind, run_bind]
  exact ⟨List.append_eq_nil_iff.2 ⟨silent, silent'⟩, result, alike''⟩

/-- What reports need not be echoed. -/
theorem Echoes.of_report {m : Resolving α} {problem : Problem} {span : Span}
    {f : Unit → Resolving β} : Echoes names outer V m (report problem span >>= f) := by
  intro σ σ' _ clean
  rw [run_bind, List.append_eq_nil_iff] at clean
  exact absurd clean.1 (List.cons_ne_nil _ _)

/-- A name is looked up alike. -/
theorem echoes_visibleVariable {name : String} (known : name ∈ names) :
    Echoes names outer (Option.Rel Variable.StandsFor) (visibleVariable name)
      (visibleVariable name) := by
  rintro σ σ' ⟨here, there, rfl, rfl, alike⟩ -
  rw [run_visibleVariable, run_visibleVariable]
  exact ⟨rfl, alike name known, here, there, rfl, rfl, alike⟩

/-- All functions are seen everywhere. -/
theorem echoes_visibleFunction (name : String) :
    Echoes names outer Eq (visibleFunction name) (visibleFunction name) := by
  rintro σ σ' ⟨here, there, rfl, rfl, alike⟩ -
  rw [run_visibleFunction, run_visibleFunction]
  exact ⟨rfl, rfl, here, there, rfl, rfl, alike⟩

/-- What stands for an expression with a value has a value. -/
theorem echoes_asValue {span span' : Span} {e e' : Bound.Expr} (h : e.StandsFor e') :
    Echoes names outer Bound.Expr.StandsFor (asValue span e) (asValue span' e') := by
  unfold asValue
  by_cases void : e'.type = .void
  · rw [if_pos void]
    exact .of_report
  · have valued : e.type ≠ .void := by
      rcases h with h | h <;> rw [h]
      · exact Ty.noConfusion
      · exact void
    rw [if_neg void, if_neg valued]
    exact .pure h

/-- Arguments that stand for others, one by one. -/
abbrev ArgumentsStandFor : List (Span × Bound.Expr) → List (Span × Bound.Expr) → Prop :=
  List.Forall₂ fun argument argument' => argument.2.StandsFor argument'.2

/-- What stands for arguments that are accepted is accepted, and fits only if they do. -/
theorem echoes_argumentsFit {arguments arguments' : List (Span × Bound.Expr)}
    (h : ArgumentsStandFor arguments arguments') (parameters : List Parameter) :
    Echoes names outer (fun fit fit' => fit = true → fit' = true)
      (argumentsFit arguments parameters) (argumentsFit arguments' parameters) := by
  induction h generalizing parameters with
  | nil => exact .pure fun _ => rfl
  | @cons argument argument' _ _ stands _ ih =>
    cases parameters with
    | nil => exact .pure fun _ => rfl
    | cons parameter parameters =>
      rw [argumentsFit, argumentsFit]
      by_cases misfit : argument'.2.type ≠ .error ∧ argument'.2.type ≠ parameter.type
      · rw [if_pos misfit]
        exact .of_report
      · have accepted : ¬(argument.2.type ≠ .error ∧ argument.2.type ≠ parameter.type) := by
          rintro ⟨meaning, other⟩
          have same := stands.resolve_left meaning
          exact misfit ⟨same ▸ meaning, same ▸ other⟩
        rw [if_neg misfit, if_neg accepted]
        refine .bind (ih parameters) fun fit fit' others => .pure fun fits => ?_
        rw [Bool.and_eq_true, beq_iff_eq] at fits ⊢
        refine ⟨?_, others fits.2⟩
        rcases stands with none | same
        · -- A parameter without a type is fitted only by arguments without one.
          rw [none] at fits
          exact Classical.byContradiction fun other => misfit ⟨fits.1 ▸ other, other⟩
        · exact same ▸ fits.1

end Resolving

namespace Syntax

open Reporting Resolving Scriptlet.Frame

variable {names : List String} {outer : Rows} {operator identifier equals closing : Token}
  {span span' : Span} {target target' : Variable}
  {left left' right right' bound bound' : Bound.Expr}

/-- What stands for an operand is taken by the same operator. -/
theorem Expr.echoes_operated (operator : Token) (h : bound.StandsFor bound') :
    Echoes names outer Bound.Expr.StandsFor (operated operator bound)
      (operated operator bound') := by
  unfold operated
  by_cases meaning : bound.type = .error
  · rw [if_pos meaning]
    split
    · exact .pure (.inl rfl)
    · split
      · exact .pure (.inl rfl)
      · exact .of_report
  · have same := h.resolve_left meaning
    rw [← same, if_neg meaning, if_neg meaning]
    split
    · exact .pure (.inr rfl)
    · exact .of_report

/-- What stands for two operands is taken by the same operator. -/
theorem Expr.echoes_combined (operator : Token) (h : left.StandsFor left')
    (h' : right.StandsFor right') :
    Echoes names outer Bound.Expr.StandsFor (combined operator left right)
      (combined operator left' right') := by
  unfold combined
  by_cases meaning : left.type = .error ∨ right.type = .error
  · rw [if_pos meaning]
    split
    · exact .pure (.inl rfl)
    · split
      · exact .pure (.inl rfl)
      · exact .of_report
  · obtain ⟨meaning', meaning''⟩ := not_or.1 meaning
    rw [← h.resolve_left meaning', ← h'.resolve_left meaning'', if_neg meaning, if_neg meaning]
    split
    · exact .pure (.inr rfl)
    · exact .of_report

/-- What stands for a value may be given to what stands for its target. -/
theorem Expr.echoes_assigned (stands : target.StandsFor target')
    (h : bound.StandsFor bound') :
    Echoes names outer Bound.Expr.StandsFor (assigned identifier equals span target bound)
      (assigned identifier equals span' target' bound') := by
  have fits : Echoes names outer Bound.Expr.StandsFor (fitted span target bound)
      (fitted span' target' bound') := by
    unfold fitted
    by_cases misfit : bound'.type ≠ .error ∧ target'.type ≠ .error ∧ bound'.type ≠ target'.type
    · rw [if_pos misfit]
      exact .of_report
    · have accepted :
          ¬(bound.type ≠ .error ∧ target.type ≠ .error ∧ bound.type ≠ target.type) := by
        rintro ⟨meaning, meaning', other⟩
        have same := h.resolve_left meaning
        have same' := stands.2.resolve_left meaning'
        exact misfit ⟨same ▸ meaning, same' ▸ meaning', same ▸ same' ▸ other⟩
      rw [if_neg misfit, if_neg accepted]
      exact .pure h
  unfold assigned
  rw [stands.1]
  split
  · exact .of_report
  · exact fits

/-- An assignment finds the visible variable of the name, or declares a new one. -/
theorem Expr.run_assignee (here : Frame) (outer : Rows) (name : String) (type : Ty) :
    (resolve.assignee name type).run (here.scoping outer) =
      match (here.rows outer).lookup? name with
      | some v => ⟨v, here.scoping outer, []⟩
      | none =>
        ⟨here.next name type false, (here.declare name type false).scoping outer, []⟩ := by
  rw [resolve.assignee, run_bind, run_visibleVariable]
  cases found : (here.rows outer).lookup? name with
  | some v => rfl
  | none =>
    have free := Rows.find?_of_lookup?_eq_none found
    simp [run_declare_next _ _ _ _ _ free]

/-- An assignment to a name that is seen alike has a target that stands for the other. -/
theorem Expr.echoes_assignee {name : String} (known : name ∈ names) {type type' : Ty}
    (h : type.StandsFor type') :
    Echoes names outer Variable.StandsFor (resolve.assignee name type)
      (resolve.assignee name type') := by
  rintro σ σ' ⟨here, there, rfl, rfl, alike⟩ -
  have seen := alike name known
  rw [Expr.run_assignee, Expr.run_assignee]
  generalize hfound : (here.rows outer).lookup? name = found at seen ⊢
  generalize hfound' : (there.rows outer).lookup? name = found' at seen ⊢
  cases seen with
  | some stands => exact ⟨rfl, stands, here, there, rfl, rfl, alike⟩
  | none =>
    -- Both scopes get a variable of the name, and all other names are seen as before.
    have stands : (here.next name type false).StandsFor (there.next name type' false) := ⟨rfl, h⟩
    refine ⟨rfl, stands, _, _, rfl, rfl, fun sought hsought => ?_⟩
    have free := Rows.find?_of_lookup?_eq_none hfound
    have free' := Rows.find?_of_lookup?_eq_none hfound'
    rw [lookup?_declare free, lookup?_declare free']
    split
    · exact .some stands
    · exact alike sought hsought

/-- What stands for arguments is taken by the same function. -/
theorem Expr.echoes_called {arguments arguments' : List (Span × Bound.Expr)}
    (h : ArgumentsStandFor arguments arguments') :
    Echoes names outer Bound.Expr.StandsFor (called identifier closing arguments)
      (called identifier closing arguments') := by
  refine .bind (echoes_visibleFunction _) fun found found' same => ?_
  subst same
  cases found with
  | none => exact .of_report
  | some f =>
    dsimp only
    rw [h.length_eq]
    split
    · exact .of_report
    · refine .bind (echoes_argumentsFit h _) fun fit fit' fits => ?_
      cases fit with
      | false => exact .pure (.inl rfl)
      | true =>
        rw [fits rfl]
        exact .pure (.inr rfl)

mutual

/-- Where its names are seen alike, an expression echoes itself. -/
theorem Expr.echoes_resolve (e : Expr) (known : ∀ name ∈ e.names, name ∈ names) :
    Echoes names outer Bound.Expr.StandsFor e.resolve e.resolve := by
  cases e with
  | literal token => exact .pure (.inr rfl)
  | name identifier =>
    rw [Expr.resolve]
    split
    · exact .pure (.inl rfl)
    · refine .bind (echoes_visibleVariable (known _ List.mem_cons_self)) fun v w stands => ?_
      cases stands with
      | none => exact .of_report
      | some stands => exact .pure stands.2
  | assignment identifier equals value =>
    rw [Expr.resolve_assignment]
    have part := value.echoes_resolveValue fun name h => known name (List.mem_cons_of_mem _ h)
    refine .bind part fun bound bound' h => ?_
    refine .bind (Expr.echoes_assignee (known _ List.mem_cons_self) h) fun v w stands => ?_
    exact Expr.echoes_assigned stands h
  | unary operator operand =>
    rw [Expr.resolve_unary]
    exact .bind (operand.echoes_resolveValue known) fun _ _ => Expr.echoes_operated operator
  | binary left operator right =>
    obtain ⟨known, known'⟩ := List.forall_mem_append.1 known
    rw [Expr.resolve_binary]
    refine .bind (left.echoes_resolveValue known) fun _ _ h => ?_
    refine .bind (right.echoes_resolveValue known') fun _ _ h' => ?_
    exact Expr.echoes_combined operator h h'
  | grouped opening inner closing =>
    rw [Expr.resolve_grouped]
    exact inner.echoes_resolveValue known
  | call identifier opening arguments closing =>
    rw [Expr.resolve_call]
    exact .bind (Expr.echoes_resolveAll arguments known) fun _ _ => Expr.echoes_called

/-- Where its names are seen alike, an expression that must have a value echoes itself. -/
theorem Expr.echoes_resolveValue (e : Expr) (known : ∀ name ∈ e.names, name ∈ names) :
    Echoes names outer Bound.Expr.StandsFor e.resolveValue e.resolveValue :=
  .bind (e.echoes_resolve known) fun _ _ => echoes_asValue

/-- Where their names are seen alike, the expressions of a row echo themselves. -/
theorem Expr.echoes_resolveAll (es : List Expr)
    (known : ∀ name ∈ Expr.namesAll es, name ∈ names) :
    Echoes names outer ArgumentsStandFor (Expr.resolveAll es) (Expr.resolveAll es) := by
  cases es with
  | nil => exact .pure .nil
  | cons e es =>
    obtain ⟨known, known'⟩ := List.forall_mem_append.1 known
    rw [Expr.resolveAll_cons]
    refine .bind (e.echoes_resolveValue known) fun _ _ h => ?_
    refine .bind (Expr.echoes_resolveAll es known') fun _ _ others => .pure (.cons h others)

end

end Syntax

end Scriptlet
