import Mathlib.Data.List.Induction
import Scriptlet.Scope

/-!
# Scopes stand behind their parents

A name is sought in a scope, then in its parent, and so on, and nothing but the order
of the scopes brings this to an end: a scope that is opened inside an open one stands
behind it in the row. A scope can also be opened inside one that is closed by then. As
indices are given out again, it may then be its own parent, and a name that it does not
declare is sought without an end.
-/

namespace Scriptlet.ScopeTree

/-- What can be done with the row of open scopes. -/
inductive Operation where
  | push (parent : Nat)
  | pop
  | declareVariable (scope : Nat) (v : Variable)
  | declareFunction (scope : Nat) (f : Function)
  deriving DecidableEq, Repr

/-- The row behind an operation. -/
def apply (t : ScopeTree) : Operation → ScopeTree
  | .push parent => (t.push parent).1
  | .pop => t.pop.1
  | .declareVariable scope v => (t.declareVariable scope v).1
  | .declareFunction scope f => (t.declareFunction scope f).1

/-- The row behind operations on the root alone. -/
def after (operations : List Operation) : ScopeTree := operations.foldl apply root

/-- The root has no parent, and every other scope stands behind its own. -/
structure Ordered (t : ScopeTree) : Prop where
  root : ∀ s, t.get? 0 = some s → s.parent? = none
  parent : ∀ scope s, t.get? scope = some s → 0 < scope →
    ∃ parent, s.parent? = some parent ∧ parent < scope

/-- From an index outwards, the scopes are asked for an answer one after the other, until
one of them has it or none is left. -/
inductive Seeks {α : Type} (t : ScopeTree) (answer : Scope → Option α) :
    Option Nat → Option α → Prop where
  | outside : Seeks t answer none none
  | closed {scope : Nat} (absent : t.get? scope = none) : Seeks t answer (some scope) none
  | here {scope : Nat} {s : Scope} {a : α} (found : t.get? scope = some s)
      (answers : answer s = some a) : Seeks t answer (some scope) (some a)
  | further {scope : Nat} {s : Scope} {result : Option α} (found : t.get? scope = some s)
      (silent : answer s = none) (rest : Seeks t answer s.parent? result) :
      Seeks t answer (some scope) result

variable {t : ScopeTree} {scope : Nat} {s : Scope}

/-- A scope behind the last one is not there. -/
theorem lt_size (found : t.get? scope = some s) : scope < t.size :=
  (Array.getElem?_eq_some_iff.1 found).1

/-! ### What an operation does to the links -/

/-- A scope just opened has the given parent, and no other scope changes. -/
theorem get?_push (t : ScopeTree) (parent scope : Nat) :
    (t.push parent).1.get? scope =
      if scope = t.size then some (.fresh (some parent)) else t.get? scope := by
  rw [push, get?, get?, size, Array.getElem?_push]

/-- Closing a scope changes no other one. -/
theorem get?_of_pop (found : t.pop.1.get? scope = some s) : t.get? scope = some s := by
  rw [pop] at found
  split at found
  · exact found
  · rw [get?, Array.getElem?_pop] at found
    exact (Option.ite_none_right_eq_some.1 found).2

/-- A change to the declarations of a scope changes no parent. -/
theorem exists_of_modify {i : Nat} {f : Scope → Scope}
    (found : get? ⟨t.scopes.modify i f⟩ scope = some s) (keeps : ∀ s, (f s).parent? = s.parent?) :
    ∃ before, t.get? scope = some before ∧ s.parent? = before.parent? := by
  rw [get?, Array.getElem?_modify] at found
  split at found
  · obtain ⟨before, here, rfl⟩ := Option.map_eq_some_iff.1 found
    exact ⟨before, here, keeps before⟩
  · exact ⟨s, found, rfl⟩

/-- A declaration of a variable changes no parent. -/
theorem exists_of_declareVariable {i : Nat} {v : Variable}
    (found : (t.declareVariable i v).1.get? scope = some s) :
    ∃ before, t.get? scope = some before ∧ s.parent? = before.parent? := by
  rw [declareVariable] at found
  split at found
  · exact ⟨s, found, rfl⟩
  · split at found
    · exact ⟨s, found, rfl⟩
    · exact exists_of_modify found fun _ => rfl

/-- A declaration of a function changes no parent. -/
theorem exists_of_declareFunction {i : Nat} {f : Function}
    (found : (t.declareFunction i f).1.get? scope = some s) :
    ∃ before, t.get? scope = some before ∧ s.parent? = before.parent? := by
  rw [declareFunction] at found
  split at found
  · exact ⟨s, found, rfl⟩
  · split at found
    · exact ⟨s, found, rfl⟩
    · exact exists_of_modify found fun _ => rfl

/-! ### Steps and runs -/

/-- A row of which no link is new is as ordered as the one before. -/
theorem Ordered.of_links {t' : ScopeTree} (h : t.Ordered)
    (links : ∀ scope s, t'.get? scope = some s →
      ∃ before, t.get? scope = some before ∧ s.parent? = before.parent?) : t'.Ordered where
  root s found := by
    obtain ⟨before, here, same⟩ := links 0 s found
    exact same ▸ h.root before here
  parent scope s found inner := by
    obtain ⟨before, here, same⟩ := links scope s found
    exact same ▸ h.parent scope before here inner

/-- A scope opened inside an open one stands behind it. -/
theorem Ordered.push (h : t.Ordered) {parent : Nat} (isOpen : parent < t.size) :
    (t.push parent).1.Ordered where
  root s found := by
    have other : 0 ≠ t.size := by omega
    rw [get?_push, if_neg other] at found
    exact h.root s found
  parent scope s found inner := by
    rw [get?_push] at found
    split at found
    · obtain rfl := Option.some.inj found
      exact ⟨parent, rfl, by omega⟩
    · exact h.parent scope s found inner

/-- An operation keeps the order if it opens no scope inside one that is not open. -/
theorem Ordered.apply (h : t.Ordered) {operation : Operation}
    (opens : ∀ parent, operation = .push parent → parent < t.size) :
    (t.apply operation).Ordered := by
  cases operation with
  | push parent => exact h.push (opens parent rfl)
  | pop => exact h.of_links fun _ s found => ⟨s, get?_of_pop found, rfl⟩
  | declareVariable i v => exact h.of_links fun _ _ => exists_of_declareVariable
  | declareFunction i f => exact h.of_links fun _ _ => exists_of_declareFunction

/-- The root alone is ordered. -/
theorem ordered_root : root.Ordered where
  root s found := by
    obtain rfl := Option.some.inj found
    rfl
  parent scope s found inner := by
    have first : scope < 1 := lt_size found
    omega

/-- The row behind one more operation. -/
theorem after_concat (operations : List Operation) (operation : Operation) :
    after (operations ++ [operation]) = (after operations).apply operation := by
  simp [after]

/-- Every row is ordered that is reached by opening scopes inside open ones only. -/
theorem ordered_after {operations : List Operation}
    (opens : ∀ before parent, before ++ [.push parent] <+: operations →
      parent < (after before).size) : (after operations).Ordered := by
  induction operations using List.reverseRecOn with
  | nil => exact ordered_root
  | append_singleton operations operation ih =>
    rw [after_concat]
    refine (ih fun before parent reached => ?_).apply fun parent pushes => ?_
    · exact opens before parent (reached.trans (List.prefix_append _ _))
    · exact opens operations parent (pushes ▸ List.prefix_refl _)

/-- A declaration of a variable opens and closes no scope. -/
theorem size_declareVariable (t : ScopeTree) (i : Nat) (v : Variable) :
    (t.declareVariable i v).1.size = t.size := by
  rw [declareVariable]
  split
  · rfl
  · split
    · rfl
    · exact Array.size_modify

/-- A declaration of a function opens and closes no scope. -/
theorem size_declareFunction (t : ScopeTree) (i : Nat) (f : Function) :
    (t.declareFunction i f).1.size = t.size := by
  rw [declareFunction]
  split
  · rfl
  · split
    · rfl
    · exact Array.size_modify

/-- The root is never closed. -/
theorem size_after_pos (operations : List Operation) : 0 < (after operations).size := by
  induction operations using List.reverseRecOn with
  | nil => exact Nat.one_pos
  | append_singleton operations operation ih =>
    rw [after_concat]
    cases operation with
    | push parent => simp [apply, push, size]
    | pop =>
      rw [apply, pop]
      split
      · exact ih
      · simp only [size, Array.size_pop]
        omega
    | declareVariable i v => exact Nat.lt_of_lt_of_eq ih (size_declareVariable _ i v).symm
    | declareFunction i f => exact Nat.lt_of_lt_of_eq ih (size_declareFunction _ i f).symm

/-- If a scope just opened stands behind its parent, the parent was open. -/
theorem Ordered.lt_of_push {parent : Nat} (nonempty : 0 < t.size)
    (h : (t.push parent).1.Ordered) : parent < t.size := by
  have found : (t.push parent).1.get? t.size = some (.fresh (some parent)) := by
    rw [get?_push, if_pos rfl]
  obtain ⟨parent', same, below⟩ := h.parent _ _ found nonempty
  obtain rfl := Option.some.inj same
  exact below

/-! ### Looking up -/

variable {α : Type} {answer : Scope → Option α}

/-- In an ordered row, no more scopes than stand in front of an index and at it are asked
from the index outwards. -/
theorem Ordered.seeks_outwards (h : t.Ordered) (limit scope : Nat)
    (enough : scope < limit ∨ t.get? scope = none) :
    t.Seeks answer (some scope) ((t.outwards limit (some scope)).findSome? answer) := by
  induction limit generalizing scope with
  | zero =>
    rcases enough with below | absent
    · omega
    · exact .closed absent
  | succ limit ih =>
    rw [outwards]
    cases found : t.get? scope with
    | none => exact .closed found
    | some s =>
      rw [List.findSome?_cons]
      cases answers : answer s with
      | some a => exact .here found answers
      | none =>
        refine .further found answers ?_
        rcases Nat.eq_zero_or_pos scope with rfl | inner
        · rw [h.root s found]
          cases limit <;> exact .outside
        · obtain ⟨parent, same, below⟩ := h.parent scope s found inner
          rw [same]
          refine ih parent (.inl ?_)
          rcases enough with enough | absent
          · omega
          · rw [found] at absent
            cases absent

/-- In an ordered row, the scopes that enclose an index are all that are asked. -/
theorem Ordered.seeks_enclosing (h : t.Ordered) (scope : Nat) :
    t.Seeks answer (some scope) ((t.enclosing scope).findSome? answer) := by
  refine h.seeks_outwards t.size scope ?_
  rcases Nat.lt_or_ge scope t.size with below | beyond
  · exact .inl below
  · exact .inr (Array.getElem?_eq_none beyond)

/-- Where a scope without an answer is its own parent, asking outwards from it does not
come to an end. -/
theorem not_seeks_of_own_parent {result : Option α} (found : t.get? scope = some s)
    (own : s.parent? = some scope) (silent : answer s = none) :
    ¬ t.Seeks answer (some scope) result := by
  intro seeks
  generalize sought : some scope = current at seeks
  induction seeks with
  | outside => cases sought
  | closed absent =>
    cases sought
    rw [found] at absent
    cases absent
  | here found' answers =>
    cases sought
    obtain rfl := Option.some.inj (found.symm.trans found')
    rw [silent] at answers
    cases answers
  | further found' _ _ ih =>
    cases sought
    obtain rfl := Option.some.inj (found.symm.trans found')
    exact ih own.symm

/-- Every name is sought from every index in finitely many steps, and what the scopes
that enclose the index declare is what is found. -/
def LookupsEnd (t : ScopeTree) : Prop :=
  ∀ scope name,
    t.Seeks (·.variableNamed? name) (some scope) (t.lookupVariable? scope name) ∧
    t.Seeks (·.functionNamed? name) (some scope) (t.lookupFunction? scope name)

/-- The row of scopes has no circles as long as no scope is opened inside a closed one.
Operations reach, step by step, only rows in which every scope but the root stands behind
its parent, and in which all names are looked up in finitely many steps, exactly if every
scope that they open has a parent that is open then. -/
theorem lookups_end_iff (operations : List Operation) :
    (∀ before, before <+: operations → (after before).Ordered ∧ (after before).LookupsEnd) ↔
      ∀ before parent, before ++ [.push parent] <+: operations →
        parent < (after before).size := by
  constructor
  · intro ordered before parent reached
    have pushed := (ordered _ reached).1
    rw [after_concat] at pushed
    exact pushed.lt_of_push (size_after_pos before)
  · intro opens before reached
    have ordered := ordered_after fun before' parent reached' =>
      opens before' parent (reached'.trans reached)
    exact ⟨ordered, fun scope _ => ⟨ordered.seeks_enclosing scope, ordered.seeks_enclosing scope⟩⟩

/-- A scope is opened and closed, and another one is opened inside it. -/
def reopenedSample : List Operation := [.push 0, .pop, .push 1]

/-- The index of the closed scope is given out again, to a scope that is then its own
parent, and a name is sought from there without an end. -/
theorem lookups_end_iff_reopenedSample :
    (root.push 0).2 = 1 ∧ (after reopenedSample).get? 1 = some (.fresh (some 1)) ∧
      (∀ result, ¬ (after reopenedSample).Seeks (·.variableNamed? "x") (some 1) result) ∧
      ¬ ∀ before, before <+: reopenedSample →
        (after before).Ordered ∧ (after before).LookupsEnd := by
  have own : (after reopenedSample).get? 1 = some (.fresh (some 1)) := rfl
  refine ⟨rfl, own, fun _ => not_seeks_of_own_parent own rfl rfl, fun ordered => ?_⟩
  have opens := (lookups_end_iff reopenedSample).1 ordered [.push 0, .pop] 1 (List.prefix_refl _)
  exact absurd opens (by decide)

end Scriptlet.ScopeTree
