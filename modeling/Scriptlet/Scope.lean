import Scriptlet.Symbol

/-!
# Scopes

Scopes are kept in a growing and shrinking row and point to their parents by
index; index zero is the root. A name is looked up in a scope, then in its
parent, and so on outwards, so the innermost declaration wins. A declaration
never replaces another one of its name in the same scope.
-/

namespace Scriptlet

/-- The declarations of one scope. -/
structure Scope where
  /-- Index of the enclosing scope. -/
  parent? : Option Nat
  /-- The variables declared here, in the order of their declaration. -/
  vars : List Variable
  /-- The functions declared here, in the order of their declaration. -/
  funs : List Function
  deriving DecidableEq, Repr, Inhabited

namespace Scope

/-- A scope without declarations. -/
def fresh (parent? : Option Nat) : Scope := ⟨parent?, [], []⟩

/-- The variable of a name declared in this very scope. -/
def variableNamed? (s : Scope) (name : String) : Option Variable :=
  s.vars.find? (·.name == name)

/-- The function of a name declared in this very scope. -/
def functionNamed? (s : Scope) (name : String) : Option Function :=
  s.funs.find? (·.name == name)

end Scope

/-- All scopes that are open, by index. -/
structure ScopeTree where
  scopes : Array Scope
  deriving DecidableEq, Repr, Inhabited

namespace ScopeTree

/-- The root scope alone. -/
def root : ScopeTree := ⟨#[.fresh none]⟩

/-- Number of open scopes. -/
def size (t : ScopeTree) : Nat := t.scopes.size

/-- The scope of an index. -/
def get? (t : ScopeTree) (scope : Nat) : Option Scope := t.scopes[scope]?

/-- Opens a scope inside another one. -/
def push (t : ScopeTree) (parent : Nat) : ScopeTree × Nat :=
  (⟨t.scopes.push (.fresh (some parent))⟩, t.scopes.size)

/-- Closes the scope that was opened last and returns its parent. The root
stays open. -/
def pop (t : ScopeTree) : ScopeTree × Option Nat :=
  if t.scopes.size ≤ 1 then (t, none)
  else (⟨t.scopes.pop⟩, t.scopes.back?.bind Scope.parent?)

/-- Adds a variable to a scope, unless the scope holds one of its name. -/
def declareVariable (t : ScopeTree) (scope : Nat) (v : Variable) : ScopeTree × Bool :=
  match t.get? scope with
  | none => (t, false)
  | some s =>
    if (s.variableNamed? v.name).isSome then (t, false)
    else (⟨t.scopes.modify scope fun s => { s with vars := s.vars ++ [v] }⟩, true)

/-- Adds a function to a scope, unless the scope holds one of its name. -/
def declareFunction (t : ScopeTree) (scope : Nat) (f : Function) : ScopeTree × Bool :=
  match t.get? scope with
  | none => (t, false)
  | some s =>
    if (s.functionNamed? f.name).isSome then (t, false)
    else (⟨t.scopes.modify scope fun s => { s with funs := s.funs ++ [f] }⟩, true)

/-- The first `limit` scopes met on the way outwards from an index. -/
def outwards (t : ScopeTree) : (limit : Nat) → Option Nat → List Scope
  | 0, _ => []
  | _ + 1, none => []
  | limit + 1, some scope =>
    match t.get? scope with
    | none => []
    | some s => s :: t.outwards limit s.parent?

/-- The scopes that enclose an index, the innermost first. As many steps as
there are scopes suffice: a longer way would only meet scopes again. -/
def enclosing (t : ScopeTree) (scope : Nat) : List Scope := t.outwards t.size (some scope)

/-- The innermost variable of a name, seen from a scope. -/
def lookupVariable? (t : ScopeTree) (scope : Nat) (name : String) : Option Variable :=
  (t.enclosing scope).findSome? (·.variableNamed? name)

/-- The innermost function of a name, seen from a scope. -/
def lookupFunction? (t : ScopeTree) (scope : Nat) (name : String) : Option Function :=
  (t.enclosing scope).findSome? (·.functionNamed? name)

/-- The variables declared in a scope itself. -/
def varsIn (t : ScopeTree) (scope : Nat) : List Variable :=
  (t.get? scope).elim [] Scope.vars

/-- The functions declared in a scope itself. -/
def funsIn (t : ScopeTree) (scope : Nat) : List Function :=
  (t.get? scope).elim [] Scope.funs

end ScopeTree

end Scriptlet
