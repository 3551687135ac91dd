import Scriptlet.Proofs.Resolving.Primitives
import Scriptlet.Proofs.Scoping.Tables
import Scriptlet.Syntax.Source

/-!
# Scopes are left as they are found

Resolving a tree opens scopes and closes them again. As long as the current scope is the
last one of the row, whatever is resolved there, well formed or not, leads back to it:
no other scope is touched, and the current one keeps its variables and may gain some,
under names that it did not hold.
-/

namespace Scriptlet

/-- A scope has become another one by declarations of variables: their names differ from
those that it held before and from one another. -/
structure Scope.Gains (s s' : Scope) : Prop where
  parent : s'.parent? = s.parent?
  funs : s'.funs = s.funs
  vars : ∃ added, s'.vars = s.vars ++ added ∧
    (∀ v ∈ added, s.variableNamed? v.name = none) ∧ (added.map Variable.name).Nodup

variable {here there last : Scope}

theorem Scope.Gains.refl (here : Scope) : here.Gains here :=
  ⟨rfl, rfl, [], (List.append_nil _).symm, nofun, List.nodup_nil⟩

/-- A scope holds no variable of a name exactly if no variable in it has that name. -/
theorem Scope.variableNamed?_eq_none_iff {name : String} :
    here.variableNamed? name = none ↔ ∀ v ∈ here.vars, v.name ≠ name := by
  rw [variableNamed?, List.find?_eq_none]
  exact forall₂_congr fun v _ => by rw [beq_iff_eq]

/-- A variable may be declared under a name that is free. -/
theorem Scope.Gains.declare {v : Variable} (free : here.variableNamed? v.name = none) :
    here.Gains { here with vars := here.vars ++ [v] } :=
  ⟨rfl, rfl, [v], rfl, List.forall_mem_singleton.2 free, by simp⟩

/-- A scope may gain variables twice. -/
theorem Scope.Gains.trans (h : here.Gains there) (h' : there.Gains last) : here.Gains last := by
  obtain ⟨added, vars, free, distinct⟩ := h.vars
  obtain ⟨added', vars', free', distinct'⟩ := h'.vars
  have apart : ∀ v' ∈ added', ∀ v ∈ here.vars ++ added, v.name ≠ v'.name := by
    intro v' hv'
    rw [← vars]
    exact variableNamed?_eq_none_iff.1 (free' v' hv')
  refine ⟨h'.parent.trans h.parent, h'.funs.trans h.funs, added ++ added', ?_, ?_, ?_⟩
  · rw [vars', vars, List.append_assoc]
  · refine List.forall_mem_append.2 ⟨free, fun v' hv' => ?_⟩
    exact variableNamed?_eq_none_iff.2 fun v hv => apart v' hv' v (List.mem_append_left _ hv)
  · rw [List.map_append]
    refine List.nodup_append.2 ⟨distinct, distinct', ?_⟩
    intro name hname name' hname'
    obtain ⟨v, hv, rfl⟩ := List.mem_map.1 hname
    obtain ⟨v', hv', rfl⟩ := List.mem_map.1 hname'
    exact apart v' hv' v (List.mem_append_right _ hv)

/-- The current scope is the last one of the row. -/
def Scoping.Innermost (s : Scoping) : Prop := s.current + 1 = s.tree.size

/-- Between two states the row has changed in the current scope alone, which is still the
current one and has gained variables at most. -/
structure Scoping.Balanced (s s' : Scoping) : Prop where
  size : s'.tree.size = s.tree.size
  current : s'.current = s.current
  others : ∀ scope, scope ≠ s.current → s'.tree.get? scope = s.tree.get? scope
  gains : ∃ here there, s.tree.get? s.current = some here ∧
    s'.tree.get? s.current = some there ∧ here.Gains there

namespace Scoping

variable {s s' s'' : Scoping}

/-- The last scope is one of the row. -/
theorem Innermost.exists_scope (h : s.Innermost) : ∃ here, s.tree.get? s.current = some here :=
  ⟨_, Array.getElem?_eq_getElem (Nat.lt_of_succ_le (Nat.le_of_eq h))⟩

/-- Nothing is out of balance where no scope has changed. -/
theorem Innermost.balanced (h : s.Innermost) (tree : s'.tree = s.tree)
    (current : s'.current = s.current) : s.Balanced s' := by
  obtain ⟨here, found⟩ := h.exists_scope
  refine ⟨?_, current, fun _ _ => ?_, here, here, found, ?_, .refl here⟩
  · rw [tree]
  · rw [tree]
  · rw [tree, found]

/-- The current scope stays the last one. -/
theorem Balanced.innermost (h : s.Balanced s') (innermost : s.Innermost) : s'.Innermost := by
  rw [Innermost, h.current, h.size]
  exact innermost

theorem Balanced.trans (h : s.Balanced s') (h' : s'.Balanced s'') : s.Balanced s'' := by
  obtain ⟨here, there, found, found', gains⟩ := h.gains
  obtain ⟨there', last, found'', found''', gains'⟩ := h'.gains
  rw [h.current] at found'' found'''
  obtain rfl := Option.some.inj (found'.symm.trans found'')
  refine ⟨h'.size.trans h.size, h'.current.trans h.current, fun scope other => ?_, here, last,
    found, found''', gains.trans gains'⟩
  exact (h'.others scope (h.current ▸ other)).trans (h.others scope other)

/-- Outside of the current scope nothing has changed, and its parent has not either. -/
theorem Balanced.sameBut (h : s.Balanced s') : s.tree.SameBut s.current s'.tree := by
  obtain ⟨here, there, found, found', gains⟩ := h.gains
  refine ⟨h.size, h.others, ?_⟩
  rw [found, found']
  exact congrArg some gains.parent

end Scoping

namespace Resolving

open Reporting Scoping

/-- From every state whose current scope is the last one, the computation leads to a state
that is balanced with it. -/
def Balances {α : Type} (m : Resolving α) : Prop :=
  ∀ s : Scoping, s.Innermost → s.Balanced (m.run s).state

variable {α β : Type} {m : Resolving α} {f : α → Resolving β}

/-- A sequence is balanced if its parts are. -/
theorem Balances.bind (h : Balances m) (h' : ∀ s, Balances (f (m.run s).value)) :
    Balances (m >>= f) := by
  intro s innermost
  have first := h s innermost
  exact first.trans (h' s _ (first.innermost innermost))

/-- A declaration adds to the current scope, unless the name is taken there. -/
theorem balances_declare (v : Variable) : Balances (declare v) := by
  intro s innermost
  obtain ⟨here, found⟩ := innermost.exists_scope
  have same := ScopeTree.Table.vars.sameBut_declare found v
  refine ⟨same.size, rfl, same.others, here, ?_⟩
  cases held : here.variableNamed? v.name with
  | some taken =>
    have refused := ScopeTree.Table.vars.declare_of_taken found held
    refine ⟨here, found, ?_, .refl here⟩
    exact (congrArg (fun result => result.1.get? s.current) refused).trans found
  | none => exact ⟨_, found, ScopeTree.Table.vars.get?_declare found held, .declare held⟩

/-- A scope of its own is closed again, whatever is done in it. -/
theorem Balances.inScope (h : Balances m) : Balances (inScope m) := by
  intro s innermost
  have nonempty : 0 < s.tree.size := Nat.lt_of_lt_of_eq (Nat.succ_pos _) innermost
  have opened : Innermost (openScope.run s).state := (Array.size_push _).symm
  have closes := (h _ opened).sameBut.pop_eq nonempty
  generalize hinner : (m.run (openScope.run s).state).state = inner at closes
  have state : ((Resolving.inScope m).run s).state = (closeScope.run inner).state := by
    rw [← hinner]
    rfl
  rw [state]
  refine innermost.balanced ?_ ?_
  · exact congrArg Prod.fst closes
  · exact congrArg (fun popped => popped.2.getD inner.current) closes

/-- All steps of resolving are balanced. -/
theorem closed_balances : Closed (fun _ => True) fun _ => Balances where
  pure _ _ innermost := innermost.balanced rfl rfl
  bind := Balances.bind
  report _ _ _ _ innermost := innermost.balanced rfl rfl
  visibleVariable _ _ innermost := innermost.balanced rfl rfl
  visibleFunction _ _ innermost := innermost.balanced rfl rfl
  newVariable _ _ _ _ innermost := innermost.balanced rfl rfl
  declare := balances_declare
  inScope := Balances.inScope

end Resolving

namespace Syntax

open Resolving

/-- Resolving is balanced. From every state whose current scope is the last one of the row,
every statement and every expression, whether it must have a value or be of a type or not,
is resolved to a state with the same row and the same current scope, but for variables that
this scope has gained. -/
theorem resolve_balanced {s : Scoping} (innermost : s.Innermost) :
    (∀ stmt : Stmt, s.Balanced (stmt.resolve.run s).state) ∧
      ∀ e : Expr, s.Balanced (e.resolve.run s).state ∧ s.Balanced (e.resolveValue.run s).state ∧
        ∀ type, s.Balanced ((e.resolveAs type).run s).state := by
  have somewhere (node : Node) : node.Every fun _ => True :=
    (Node.every_iff 0 node).2 fun _ _ => trivial
  constructor
  · intro stmt
    exact stmt.closed_resolve closed_balances (somewhere _) s innermost
  · intro e
    have part := e.closed_resolve closed_balances (somewhere _)
    refine ⟨part s innermost, ?_, fun type => ?_⟩
    · exact Expr.closed_resolveValue closed_balances part trivial s innermost
    · exact Expr.closed_resolveAs closed_balances type part trivial s innermost

/-- The state in the second of two scopes of the root, which holds a variable. -/
def branchingSample : Scoping :=
  ⟨ScopeTree.after [.push 0, .push 0, .declareVariable 2 ⟨0, "x", .int, false⟩], 2, 1⟩

/-- A branch that declares a name in its condition, adds what cannot be added, hides a
variable in a block, lacks a name and declares another one in its alternative. -/
def branchingStatement : Stmt :=
  (Source.ofText "if (y = 1) + true \x7b var x = y x = 2 var \x7d else z = y").script.statement

/-- The current scope has gained the name in the condition, and no other scope is left. -/
theorem resolve_balanced_branchingSample :
    branchingSample.Innermost ∧
    branchingSample.Balanced (branchingStatement.resolve.run branchingSample).state ∧
    (branchingStatement.resolve.run branchingSample).diagnostics.length = 2 ∧
    ((branchingStatement.resolve.run branchingSample).state.tree.varsIn 2).map Variable.name =
      ["x", "y"] := by
  have innermost : branchingSample.Innermost := rfl
  exact ⟨innermost, (resolve_balanced innermost).1 branchingStatement, by decide, by decide⟩

end Syntax

end Scriptlet
