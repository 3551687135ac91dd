import Scriptlet.Session.Submission

/-!
# The scopes around a place

While a tree is resolved, the open scopes form a chain: each stands inside the
one opened before it, and the root, which holds the functions of the language,
stands around all of them. The rows of variables of these scopes therefore say
all there is to know about the scope tree, and resolving can be followed on the
rows alone.
-/

namespace Scriptlet

/-- The variables of the open scopes inside the root, the innermost scope first. -/
abbrev Rows := List (List Variable)

namespace Rows

/-- The innermost variable of a name. -/
def lookup? (rows : Rows) (name : String) : Option Variable :=
  rows.findSome? fun vars => vars.find? (·.name == name)

/-- The scopes of the rows and the root around them, the innermost first. -/
def scopes : Rows → List Scope
  | [] => [⟨none, [], Function.builtins⟩]
  | vars :: outer => ⟨some outer.length, vars, []⟩ :: scopes outer

/-- The scope tree in which exactly the scopes of the rows are open. -/
def tree : Rows → ScopeTree
  | [] => ⟨#[⟨none, [], Function.builtins⟩]⟩
  | vars :: outer => ⟨(tree outer).scopes.push ⟨some outer.length, vars, []⟩⟩

variable {rows outer inner : Rows} {vars : List Variable} {v : Variable} {name : String}

/-- What is looked up is one of the variables and has the name. -/
theorem mem_of_lookup? (h : rows.lookup? name = some v) :
    (∃ vars ∈ rows, v ∈ vars) ∧ v.name = name := by
  obtain ⟨vars, hvars, found⟩ := List.exists_of_findSome?_eq_some h
  exact ⟨⟨vars, hvars, List.mem_of_find?_eq_some found⟩, by simpa using List.find?_some found⟩

/-- A name that is not visible at all is not taken in the innermost scope. -/
theorem find?_of_lookup?_eq_none (h : lookup? (vars :: outer) name = none) :
    vars.find? (·.name == name) = none := by
  rw [lookup?, List.findSome?_eq_none_iff] at h
  exact h vars List.mem_cons_self

/-- There is one scope for each row, and the root. -/
theorem size_tree (rows : Rows) : rows.tree.scopes.size = rows.length + 1 := by
  induction rows with
  | nil => rfl
  | cons vars outer ih => simp [tree, ih]

/-- A row of variables is found at the index of its scope. -/
theorem get?_tree (inner rows : Rows) :
    (tree (inner ++ rows)).get? rows.length = (scopes rows).head? := by
  induction inner with
  | nil =>
    cases rows with
    | nil => rfl
    | cons vars outer => simp [tree, ScopeTree.get?, scopes, ← size_tree outer]
  | cons vars inner ih =>
    have below : rows.length < (tree (inner ++ rows)).scopes.size := by
      rw [size_tree, List.length_append]
      omega
    rw [← ih, List.cons_append, tree, ScopeTree.get?, ScopeTree.get?, Array.getElem?_push_lt below,
      Array.getElem?_eq_getElem below]

/-- On the way outwards from a scope come its row and the rows around it. -/
theorem outwards_tree (limit : Nat) (inner rows : Rows) :
    (tree (inner ++ rows)).outwards limit (some rows.length) = (scopes rows).take limit := by
  induction limit generalizing inner rows with
  | zero => rfl
  | succ limit ih =>
    rw [ScopeTree.outwards, get?_tree]
    cases rows with
    | nil =>
      cases limit with
      | zero => rfl
      | succ limit => simp [scopes, ScopeTree.outwards]
    | cons vars outer =>
      have further := ih (inner ++ [vars]) outer
      rw [List.append_assoc, List.singleton_append] at further
      simp [scopes, further]

/-- The scopes that enclose the innermost one are those of the rows. -/
theorem enclosing_tree (rows : Rows) : rows.tree.enclosing rows.length = scopes rows := by
  have whole := outwards_tree (rows.length + 1) [] rows
  have count : (scopes rows).length = rows.length + 1 := by
    induction rows with
    | nil => rfl
    | cons vars outer ih => simp [scopes, ih (outwards_tree _ [] outer)]
  rw [List.nil_append, List.take_of_length_le (Nat.le_of_eq count)] at whole
  rw [ScopeTree.enclosing, ScopeTree.size, size_tree, whole]

/-- Looking a variable up in the tree is looking it up in the rows. -/
theorem lookupVariable?_tree (rows : Rows) (name : String) :
    rows.tree.lookupVariable? rows.length name = rows.lookup? name := by
  rw [ScopeTree.lookupVariable?, enclosing_tree]
  induction rows with
  | nil => rfl
  | cons vars outer ih => rw [scopes, List.findSome?_cons, ih]; rfl

/-- The functions that can be looked up are those of the language. -/
theorem lookupFunction?_tree (rows : Rows) (name : String) :
    rows.tree.lookupFunction? rows.length name = Function.builtins.find? (·.name == name) := by
  rw [ScopeTree.lookupFunction?, enclosing_tree]
  induction rows with
  | nil => simp [scopes, Scope.functionNamed?]
  | cons vars outer ih => rw [scopes, List.findSome?_cons, ih]; rfl

/-- Declaring a variable in the innermost scope adds it to its row, unless the
row holds one of its name. -/
theorem declareVariable_tree (vars : List Variable) (outer : Rows) (v : Variable) :
    (tree (vars :: outer)).declareVariable (outer.length + 1) v =
      if (vars.find? (·.name == v.name)).isSome then (tree (vars :: outer), false)
      else (tree ((vars ++ [v]) :: outer), true) := by
  have here := get?_tree [] (vars :: outer)
  rw [List.nil_append, List.length_cons, scopes, List.head?_cons] at here
  rw [ScopeTree.declareVariable, here]
  by_cases taken : (vars.find? (·.name == v.name)).isSome
  · exact (if_pos taken).trans (if_pos taken).symm
  · refine (if_neg taken).trans (Eq.trans ?_ (if_neg taken).symm)
    rw [Prod.mk.injEq, ScopeTree.mk.injEq]
    refine ⟨?_, rfl⟩
    rw [tree, tree, ← size_tree outer]
    apply Array.ext
    · simp
    · intro i hi hi'
      simp only [Array.size_push] at hi'
      rw [Array.getElem_modify, Array.getElem_push, Array.getElem_push]
      split <;> split <;> first | rfl | omega

/-- Opening a scope adds an empty row. -/
theorem push_tree (rows : Rows) :
    rows.tree.push rows.length = (tree ([] :: rows), rows.length + 1) := by
  rw [ScopeTree.push, size_tree]
  rfl

/-- Closing the innermost scope removes its row. -/
theorem pop_tree (vars : List Variable) (outer : Rows) :
    (tree (vars :: outer)).pop = (outer.tree, some outer.length) := by
  have many : ¬ (tree (vars :: outer)).scopes.size ≤ 1 := by
    rw [size_tree, List.length_cons]
    omega
  rw [ScopeTree.pop, if_neg many]
  simp [tree]

end Rows

/-- What resolving works on in the innermost scope. -/
structure Frame where
  /-- The variables declared in the scope so far. -/
  vars : List Variable
  /-- Identity of the next variable. -/
  nextId : Nat

namespace Frame

/-- A scope just opened. -/
def fresh (nextId : Nat) : Frame := ⟨[], nextId⟩

/-- The next variable. -/
def next (here : Frame) (name : String) (type : Ty) (isReadOnly : Bool) : Variable :=
  ⟨here.nextId, name, type, isReadOnly⟩

/-- The scope with the next variable declared in it. -/
def declare (here : Frame) (name : String) (type : Ty) (isReadOnly : Bool) : Frame :=
  ⟨here.vars ++ [here.next name type isReadOnly], here.nextId + 1⟩

/-- The scope again, behind another one that stood inside it. -/
def behind (here inner : Frame) : Frame := ⟨here.vars, inner.nextId⟩

/-- The row of the scope and the rows around it. -/
def rows (here : Frame) (outer : Rows) : Rows := here.vars :: outer

/-- The state of resolving in the scope. -/
def scoping (here : Frame) (outer : Rows) : Scoping :=
  ⟨(here.rows outer).tree, outer.length + 1, here.nextId⟩

variable {here : Frame} {outer : Rows} {name : String} {type : Ty} {isReadOnly : Bool}

/-- A scope with a new variable shows the variable under its name and otherwise
what it showed before. -/
theorem lookup?_declare (free : here.vars.find? (·.name == name) = none) (sought : String) :
    ((here.declare name type isReadOnly).rows outer).lookup? sought =
      if name = sought then some (here.next name type isReadOnly)
      else (here.rows outer).lookup? sought := by
  simp only [Rows.lookup?, Frame.rows, Frame.declare, List.findSome?_cons, List.find?_append]
  by_cases hname : name = sought
  · subst hname
    rw [free, if_pos rfl, List.find?_cons_of_pos (by simp [next])]
    rfl
  · rw [if_neg hname, List.find?_cons_of_neg (by simpa [next] using hname), List.find?_nil,
      Option.or_none]

end Frame

namespace Resolving

open Reporting Rows

variable (here : Frame) (outer : Rows) (name : String) (type : Ty) (isReadOnly : Bool)

/-- Variables are looked up in the rows. -/
@[simp] theorem run_visibleVariable :
    (visibleVariable name).run (here.scoping outer) =
      ⟨(here.rows outer).lookup? name, here.scoping outer, []⟩ := by
  have found := lookupVariable?_tree (here.rows outer) name
  simp only [visibleVariable, run_bind, run_state, run_pure, Frame.scoping, List.nil_append]
  rw [← found]
  rfl

/-- Functions are looked up in the list of the language. -/
@[simp] theorem run_visibleFunction :
    (visibleFunction name).run (here.scoping outer) =
      ⟨Function.builtins.find? (·.name == name), here.scoping outer, []⟩ := by
  have found := lookupFunction?_tree (here.rows outer) name
  simp only [visibleFunction, run_bind, run_state, run_pure, Frame.scoping, List.nil_append]
  rw [← found]
  rfl

/-- A new variable uses up an identity. -/
@[simp] theorem run_newVariable :
    (newVariable name type isReadOnly).run (here.scoping outer) =
      ⟨here.next name type isReadOnly, Frame.scoping ⟨here.vars, here.nextId + 1⟩ outer, []⟩ := rfl

/-- A declaration adds to the innermost row, unless the name is taken there. -/
theorem run_declare (v : Variable) :
    (declare v).run (here.scoping outer) =
      if (here.vars.find? (·.name == v.name)).isSome then ⟨false, here.scoping outer, []⟩
      else ⟨true, Frame.scoping ⟨here.vars ++ [v], here.nextId⟩ outer, []⟩ := by
  have declared := declareVariable_tree here.vars outer v
  simp only [declare, run_bind, run_state, run_setState, run_pure, Frame.scoping, Frame.rows,
    declared, List.nil_append]
  split <;> rfl

/-- The next variable is declared if its name is not taken. -/
theorem run_declare_next (free : here.vars.find? (·.name == name) = none) :
    (declare (here.next name type isReadOnly)).run
        (Frame.scoping ⟨here.vars, here.nextId + 1⟩ outer) =
      ⟨true, (here.declare name type isReadOnly).scoping outer, []⟩ := by
  rw [run_declare]
  simp only [Frame.next, free, Option.isSome_none, Bool.false_eq_true, if_false, Frame.declare]

/-- A scope is opened with no variables in it. -/
@[simp] theorem run_openScope :
    openScope.run (here.scoping outer) =
      ⟨(), Frame.scoping (.fresh here.nextId) (here.rows outer), []⟩ := by
  have pushed := push_tree (here.rows outer)
  rw [show (here.rows outer).length = outer.length + 1 from rfl] at pushed
  simp only [openScope, run_modifyState, Frame.scoping, pushed]
  rfl

/-- Closing a scope leads back to the scope around it. -/
@[simp] theorem run_closeScope (inner : Frame) :
    closeScope.run (inner.scoping (here.rows outer)) =
      ⟨(), (here.behind inner).scoping outer, []⟩ := by
  simp only [closeScope, run_modifyState, Frame.scoping]
  rw [Frame.rows, pop_tree]
  rfl

/-- What is done in a scope of its own leaves the scope around it as it is,
except that identities are used up. -/
theorem run_inScope {α : Type} {m : Resolving α} {a : α} {inner : Frame}
    {reports : List Diagnostic}
    (h : m.run (Frame.scoping (.fresh here.nextId) (here.rows outer)) =
      ⟨a, inner.scoping (here.rows outer), reports⟩) :
    (inScope m).run (here.scoping outer) = ⟨a, (here.behind inner).scoping outer, reports⟩ := by
  simp only [inScope, run_bind, run_openScope, h, run_closeScope, run_pure, List.nil_append,
    List.append_nil]

/-- Opening and closing a scope reports nothing. -/
theorem diagnostics_inScope {α : Type} (m : Resolving α) :
    ((inScope m).run (here.scoping outer)).diagnostics =
      (m.run (Frame.scoping (.fresh here.nextId) (here.rows outer))).diagnostics := by
  simp only [inScope, run_bind, run_openScope, closeScope, run_modifyState, run_pure,
    List.nil_append, List.append_nil]

end Resolving

end Scriptlet
