import Scriptlet.Proofs.Replacing.Trees
import Scriptlet.Scope
import Scriptlet.Store

/-!
# Renaming the identities of variables

Identities only tell variables apart, so nothing should depend on which numbers
they are. Renaming replaces the identity of every variable in a tree, a scope or
a store. Types, labels and the shape of programs do not change, and lowering
commutes with it; so does looking up a name, and, as long as the renaming is one
to one, finding the value of a variable.
-/

namespace Scriptlet

/-- The variable with its identity renamed. -/
def Variable.rename (f : Nat → Nat) (v : Variable) : Variable := { v with id := f v.id }

variable {f : Nat → Nat}

@[simp] theorem Variable.rename_name (v : Variable) : (v.rename f).name = v.name := rfl

@[simp] theorem Variable.rename_type (v : Variable) : (v.rename f).type = v.type := rfl

@[simp] theorem Variable.rename_isReadOnly (v : Variable) :
    (v.rename f).isReadOnly = v.isReadOnly := rfl

/-- A renaming one to one keeps variables apart. -/
theorem Variable.rename_injective (h : f.Injective) {v w : Variable}
    (same : v.rename f = w.rename f) : v = w := by
  have ids := h (congrArg Variable.id same)
  have names := congrArg Variable.name same
  have types := congrArg Variable.type same
  have modes := congrArg Variable.isReadOnly same
  cases v
  cases w
  simp_all

/-- A variable is the same by another name for its identity only if that is its
own. -/
theorem Variable.rename_of_fixed {v : Variable} (h : f v.id = v.id) : v.rename f = v := by
  rw [rename, h]

namespace Bound

mutual

/-- The expression with the identities of its variables renamed. -/
def Expr.rename (f : Nat → Nat) : Expr → Expr
  | .literal value => .literal value
  | .name target => .name (target.rename f)
  | .assignment target value => .assignment (target.rename f) (value.rename f)
  | .unary operator operand => .unary operator (operand.rename f)
  | .binary left operator right => .binary (left.rename f) operator (right.rename f)
  | .call function arguments => .call function (Expr.renameAll f arguments)
  | .error => .error

/-- The expressions with the identities of their variables renamed. -/
def Expr.renameAll (f : Nat → Nat) : List Expr → List Expr
  | [] => []
  | e :: es => e.rename f :: Expr.renameAll f es

end

mutual

/-- Renaming identities is a way to replace variables. -/
theorem Expr.rename_eq_replace (e : Expr) : e.rename f = e.replace (·.rename f) := by
  cases e with
  | literal | name | error => rfl
  | assignment target value => rw [rename, replace, value.rename_eq_replace]
  | unary operator operand => rw [rename, replace, operand.rename_eq_replace]
  | binary left operator right =>
    rw [rename, replace, left.rename_eq_replace, right.rename_eq_replace]
  | call function arguments => rw [rename, replace, Expr.renameAll_eq_replaceAll arguments]

/-- Renaming identities in expressions is a way to replace variables. -/
theorem Expr.renameAll_eq_replaceAll (es : List Expr) :
    renameAll f es = replaceAll (·.rename f) es := by
  cases es with
  | nil => rfl
  | cons e es => rw [renameAll, replaceAll, e.rename_eq_replace, renameAll_eq_replaceAll es]

end

mutual

/-- The statement with the identities of its variables renamed. -/
def Stmt.rename (f : Nat → Nat) : Stmt → Stmt
  | .block statements => .block (Stmt.renameAll f statements)
  | .declaration target initializer => .declaration (target.rename f) (initializer.rename f)
  | .expression inner => .expression (inner.rename f)
  | .ifThen condition consequence => .ifThen (condition.rename f) (consequence.rename f)
  | .ifElse condition consequence alternative =>
    .ifElse (condition.rename f) (consequence.rename f) (alternative.rename f)
  | .whileLoop condition body => .whileLoop (condition.rename f) (body.rename f)
  | .forLoop target lower upper body =>
    .forLoop (target.rename f) (lower.rename f) (upper.rename f) (body.rename f)
  | .goto target => .goto target
  | .gotoIf target condition expected => .gotoIf target (condition.rename f) expected
  | .label placed => .label placed

/-- The statements with the identities of their variables renamed. -/
def Stmt.renameAll (f : Nat → Nat) : List Stmt → List Stmt
  | [] => []
  | s :: ss => s.rename f :: Stmt.renameAll f ss

end

namespace Stmt

@[simp] theorem rename_placed? (s : Stmt) : (s.rename f).placed? = s.placed? := by
  cases s <;> rfl

mutual

/-- Renaming identities in a statement is a way to replace variables. -/
theorem rename_eq_replace (s : Stmt) : s.rename f = s.replace (·.rename f) id := by
  have part := Expr.rename_eq_replace (f := f)
  cases s with
  | block statements => rw [rename, replace, renameAll_eq_replaceAll statements]
  | declaration target initializer => rw [rename, replace, part]
  | expression inner => rw [rename, replace, part]
  | ifThen condition consequence => rw [rename, replace, part, consequence.rename_eq_replace]
  | ifElse condition consequence alternative =>
    rw [rename, replace, part, consequence.rename_eq_replace, alternative.rename_eq_replace]
  | whileLoop condition body => rw [rename, replace, part, body.rename_eq_replace]
  | forLoop target lower upper body =>
    rw [rename, replace, part, part, body.rename_eq_replace]
  | gotoIf target condition expected => rw [rename, replace, part, id]
  | goto | label => rfl

/-- Renaming identities in statements is a way to replace variables. -/
theorem renameAll_eq_replaceAll (ss : List Stmt) :
    renameAll f ss = replaceAll (·.rename f) id ss := by
  cases ss with
  | nil => rfl
  | cons s ss => rw [renameAll, replaceAll, s.rename_eq_replace, renameAll_eq_replaceAll ss]

end

/-- Lowering commutes with renaming. -/
theorem lower_rename (s : Stmt) : (s.rename f).lower = s.lower.map (rename f) := by
  rw [rename_eq_replace, lower_replace]
  exact List.map_congr_left fun part _ => part.rename_eq_replace.symm

end Stmt

end Bound

/-- Renaming moves no label. -/
theorem Program.placement?_rename (label : Label) (p : Program) :
    placement? label (p.map (Bound.Stmt.rename f)) = p.placement? label := by
  induction p with
  | nil => rfl
  | cons s p ih => rw [List.map_cons, placement?, placement?, ih, Bound.Stmt.rename_placed?]

/-- The scope with the identities of its variables renamed. -/
def Scope.rename (f : Nat → Nat) (s : Scope) : Scope := { s with vars := s.vars.map (·.rename f) }

/-- A variable is found by its name before and behind a renaming. -/
theorem find?_map_rename (vars : List Variable) (name : String) :
    (vars.map (·.rename f)).find? (·.name == name) =
      (vars.find? (·.name == name)).map (·.rename f) := by
  rw [List.find?_map]
  rfl

@[simp] theorem Scope.rename_variableNamed? (s : Scope) (name : String) :
    (s.rename f).variableNamed? name = (s.variableNamed? name).map (·.rename f) :=
  find?_map_rename s.vars name

namespace ScopeTree

/-- The scopes with the identities of all variables renamed. -/
def rename (f : Nat → Nat) (t : ScopeTree) : ScopeTree := ⟨t.scopes.map (·.rename f)⟩

variable (t : ScopeTree)

@[simp] theorem rename_size : (t.rename f).size = t.size := by simp [rename, size]

@[simp] theorem rename_get? (scope : Nat) :
    (t.rename f).get? scope = (t.get? scope).map (·.rename f) := by simp [rename, get?]

/-- The way outwards leads through the renamed scopes. -/
theorem rename_outwards (limit : Nat) (scope? : Option Nat) :
    (t.rename f).outwards limit scope? = (t.outwards limit scope?).map (·.rename f) := by
  induction limit generalizing scope? with
  | zero => rfl
  | succ limit ih =>
    cases scope? with
    | none => rfl
    | some scope =>
      rw [outwards, outwards, rename_get?]
      cases t.get? scope with
      | none => rfl
      | some s => exact congrArg (s.rename f :: ·) (ih s.parent?)

/-- Looking a name up finds the renamed variable. -/
theorem rename_lookupVariable? (scope : Nat) (name : String) :
    (t.rename f).lookupVariable? scope name =
      (t.lookupVariable? scope name).map (·.rename f) := by
  rw [lookupVariable?, lookupVariable?, enclosing, enclosing, rename_outwards, rename_size,
    List.findSome?_map]
  induction t.outwards t.size (some scope) with
  | nil => rfl
  | cons s ss ih =>
    rw [List.findSome?_cons, List.findSome?_cons, Function.comp_apply, Scope.rename_variableNamed?,
      ih]
    cases s.variableNamed? name <;> rfl

/-- Functions are no variables. -/
theorem rename_lookupFunction? (scope : Nat) (name : String) :
    (t.rename f).lookupFunction? scope name = t.lookupFunction? scope name := by
  rw [lookupFunction?, lookupFunction?, enclosing, enclosing, rename_outwards, rename_size,
    List.findSome?_map]
  rfl

/-- Opening a scope commutes with renaming. -/
theorem rename_push (parent : Nat) :
    (t.rename f).push parent = ((t.push parent).1.rename f, (t.push parent).2) := by
  simp [push, rename, Scope.rename, Scope.fresh]

/-- Closing a scope commutes with renaming. -/
theorem rename_pop : (t.rename f).pop = (t.pop.1.rename f, t.pop.2) := by
  by_cases h : t.scopes.size ≤ 1
  · simp [pop, rename, h]
  · simp only [pop, rename, Array.size_map, h, if_false, Array.map_pop, Array.back?_map]
    cases t.scopes.back? <;> rfl

/-- Declaring a variable commutes with renaming. -/
theorem rename_declareVariable (scope : Nat) (v : Variable) :
    (t.rename f).declareVariable scope (v.rename f) =
      ((t.declareVariable scope v).1.rename f, (t.declareVariable scope v).2) := by
  rw [declareVariable, declareVariable, rename_get?]
  cases t.get? scope with
  | none => rfl
  | some s =>
    simp only [Option.map_some, Scope.rename_variableNamed?, Option.isSome_map,
      Variable.rename_name]
    split
    · rfl
    · rw [Prod.mk.injEq]
      refine ⟨?_, rfl⟩
      rw [rename, rename, ScopeTree.mk.injEq]
      apply Array.ext
      · simp
      · intro i hi hi'
        simp only [Array.getElem_modify, Array.getElem_map]
        split <;> simp [Scope.rename]

/-- The variables of a scope are renamed. -/
theorem rename_varsIn (scope : Nat) :
    (t.rename f).varsIn scope = (t.varsIn scope).map (·.rename f) := by
  rw [varsIn, varsIn, rename_get?]
  cases t.get? scope <;> rfl

end ScopeTree

namespace Store

/-- The store with the identities of its variables renamed. -/
def rename (f : Nat → Nat) (s : Store) : Store :=
  ⟨s.entries.map fun entry => (entry.1.rename f, entry.2)⟩

/-- Variables have the same values by other identities. -/
theorem rename_get? (h : f.Injective) (s : Store) (v : Variable) :
    (s.rename f).get? (v.rename f) = s.get? v := by
  obtain ⟨entries⟩ := s
  simp only [rename, get?]
  induction entries with
  | nil => rfl
  | cons entry rest ih =>
    have same : (entry.1.rename f == v.rename f) = (entry.1 == v) := by
      rw [Bool.eq_iff_iff, beq_iff_eq, beq_iff_eq]
      exact ⟨Variable.rename_injective h, congrArg (Variable.rename f)⟩
    rw [List.map_cons, List.find?_cons, List.find?_cons, same]
    cases entry.1 == v with
    | true => rfl
    | false => exact ih

/-- Giving a variable a value commutes with renaming. -/
theorem rename_insert (h : f.Injective) (s : Store) (v : Variable) (value : Value) :
    (s.rename f).insert (v.rename f) value = (s.insert v value).rename f := by
  obtain ⟨entries⟩ := s
  simp only [rename, insert]
  congr 1
  induction entries with
  | nil => rfl
  | cons entry rest ih =>
    rw [List.map_cons, insertInto, insertInto]
    by_cases same : entry.1 = v
    · simp [same]
    · have apart : ¬ entry.1.rename f = v.rename f :=
        fun renamed => same (Variable.rename_injective h renamed)
      simp [same, apart, ih]

end Store

end Scriptlet
