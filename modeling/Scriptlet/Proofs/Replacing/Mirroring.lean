import Scriptlet.Proofs.Declaring.Sites
import Scriptlet.Proofs.Replacing.Resolving

/-!
# Resolving below a writable variable

Where one variable is read-only in the scopes around a tree and writable in others, a
tree is resolved alike inside both, up to the mark of that variable and with no more
reports. An expression that declares nothing is resolved alike, and leaves the scopes as
they are, wherever its names mean the same.
-/

namespace Scriptlet

/-- The variable, made writable if it is the one of an identity. -/
def Variable.unlock (id : Nat) (v : Variable) : Variable :=
  if v.id = id then { v with isReadOnly := false } else v

variable {id : Nat} {v : Variable}

@[simp] theorem Variable.unlock_name (v : Variable) : (v.unlock id).name = v.name := by
  unfold unlock
  split <;> rfl

@[simp] theorem Variable.unlock_type (v : Variable) : (v.unlock id).type = v.type := by
  unfold unlock
  split <;> rfl

/-- Other variables stay as they are. -/
theorem Variable.unlock_of_ne (h : v.id ≠ id) : v.unlock id = v := if_neg h

namespace Rows

variable {rows : Rows} {name : String}

/-- The rows with the variable of an identity made writable. -/
def unlock (id : Nat) (rows : Rows) : Rows := rows.map (List.map (Variable.unlock id))

/-- A variable is found by its name whether it is writable or not. -/
theorem find?_map_unlock (id : Nat) (vars : List Variable) (name : String) :
    (vars.map (Variable.unlock id)).find? (·.name == name) =
      (vars.find? (·.name == name)).map (Variable.unlock id) := by
  simp only [List.find?_map, Function.comp_def, Variable.unlock_name]

/-- What is visible below some rows depends on them by what is visible there. -/
theorem lookup?_append (inner : Rows) {base base' : Rows} (name : String)
    (same : base'.lookup? name = (base.lookup? name).map (Variable.unlock id)) :
    (inner.unlock id ++ base').lookup? name =
      ((inner ++ base).lookup? name).map (Variable.unlock id) := by
  induction inner with
  | nil => exact same
  | cons vars inner ih =>
    have here := find?_map_unlock id vars name
    simp only [unlock, List.map_cons, List.cons_append, lookup?, List.findSome?_cons, here]
    cases vars.find? (·.name == name) with
    | some v => rfl
    | none => exact ih

/-- Making a variable writable changes nothing where only older ones are visible. -/
theorem map_unlock_lookup? (older : Below id rows) (name : String) :
    (rows.lookup? name).map (Variable.unlock id) = rows.lookup? name := by
  cases found : rows.lookup? name with
  | none => rfl
  | some v =>
    obtain ⟨⟨vars, hvars, hv⟩, -⟩ := mem_of_lookup? found
    exact congrArg some (Variable.unlock_of_ne (Nat.ne_of_lt (older vars hvars v hv)))

end Rows

/-- The scope with the variable of an identity made writable. -/
def Frame.unlock (id : Nat) (here : Frame) : Frame :=
  ⟨here.vars.map (Variable.unlock id), here.nextId⟩

namespace Resolving

open Reporting

/-- No report is made that was not made before. -/
theorem joins_sublist : Joins fun xs ys => ys.Sublist xs :=
  ⟨.refl _, fun d => .refl [d], fun first second => first.append second⟩

/-- Making a variable writable may save a report, and does nothing else. -/
theorem replacement_unlock (id : Nat) :
    Replacement (Variable.unlock id) fun xs ys => ys.Sublist xs where
  joins := joins_sublist
  type := Variable.unlock_type
  mode v := by
    by_cases h : v.id = id
    · exact .inr ⟨by simp [Variable.unlock, h], fun d => List.nil_sublist [d]⟩
    · exact .inl (congrArg Variable.isReadOnly (Variable.unlock_of_ne h))

/-- Two states inside of some scopes and of other ones: the same scopes are open there,
in which the variable of an identity is writable in the second state. -/
def Mirrors (id : Nat) (base base' : Rows) (n : Nat) (s s' : Scoping) : Prop :=
  ∃ (here : Frame) (inner : Rows), inner.length = n ∧ id < here.nextId ∧
    s = here.scoping (inner ++ base) ∧ s' = (here.unlock id).scoping (inner.unlock id ++ base')

variable {base base' : Rows}

/-- Statements are resolved alike inside of scopes in which the same is visible, up to
the mark of a variable. -/
theorem mirrors_replaces
    (same : ∀ name, base'.lookup? name = (base.lookup? name).map (Variable.unlock id)) :
    ReplacesScopes (Variable.unlock id) (Mirrors id base base') fun xs ys => ys.Sublist xs where
  toReplacement := replacement_unlock id
  lookup n name := by
    rintro _ _ ⟨here, inner, hlength, older, rfl, rfl⟩
    have found := Rows.lookup?_append (here.vars :: inner) name (same name)
    rw [run_visibleVariable, run_visibleVariable]
    exact ⟨⟨here, inner, hlength, older, rfl, rfl⟩, found, .refl _⟩
  function n name := by
    rintro _ _ ⟨here, inner, hlength, older, rfl, rfl⟩
    rw [run_visibleFunction, run_visibleFunction]
    exact ⟨⟨here, inner, hlength, older, rfl, rfl⟩, rfl, .refl _⟩
  newVariable n name type isReadOnly := by
    rintro _ _ ⟨here, inner, hlength, older, rfl, rfl⟩
    rw [run_newVariable, run_newVariable]
    refine ⟨⟨⟨here.vars, here.nextId + 1⟩, inner, hlength, ?_, rfl, rfl⟩, ?_, .refl _⟩
    · exact Nat.lt_succ_of_lt older
    · exact (Variable.unlock_of_ne (Nat.ne_of_gt older)).symm
  declare n v := by
    rintro _ _ ⟨here, inner, hlength, older, rfl, rfl⟩
    have taken := Rows.find?_map_unlock id here.vars v.name
    rw [run_declare, run_declare, Frame.unlock, Variable.unlock_name, taken, Option.isSome_map]
    split
    · exact ⟨⟨here, inner, hlength, older, rfl, rfl⟩, rfl, .refl _⟩
    · refine ⟨⟨⟨here.vars ++ [v], here.nextId⟩, inner, hlength, older, rfl, ?_⟩, rfl, .refl _⟩
      simp [Frame.unlock]
  openScope n := by
    rintro _ _ ⟨here, inner, hlength, older, rfl, rfl⟩
    rw [run_openScope, run_openScope]
    exact ⟨.fresh here.nextId, here.vars :: inner, congrArg (· + 1) hlength, older, rfl, rfl⟩
  closeScope n := by
    rintro _ _ ⟨here, inner, hlength, older, rfl, rfl⟩
    obtain ⟨vars, inner, rfl⟩ := List.exists_cons_of_length_eq_add_one hlength
    refine ⟨⟨vars, here.nextId⟩, inner, Nat.succ.inj hlength, older, ?_, ?_⟩
    · exact congrArg Reported.state (run_closeScope ⟨vars, 0⟩ (inner ++ base) here)
    · exact congrArg Reported.state
        (run_closeScope ⟨vars.map (Variable.unlock id), 0⟩ (Rows.unlock id inner ++ base')
          (here.unlock id))

/-- Two given states. -/
def Stands (here here' : Frame) (outer outer' : Rows) (s s' : Scoping) : Prop :=
  s = here.scoping outer ∧ s' = here'.scoping outer'

variable {here here' : Frame} {outer outer' : Rows} {P : String → Prop}

/-- An assignment to a visible variable declares nothing. -/
theorem run_assignee {name : String} {v : Variable} (type : Ty)
    (visible : (here.rows outer).lookup? name = some v) :
    (Syntax.Expr.resolve.assignee name type).run (here.scoping outer) =
      ⟨v, here.scoping outer, []⟩ := by
  rw [Syntax.Expr.resolve.assignee, run_bind, run_visibleVariable, visible]
  rfl

/-- Expressions that assign to visible variables only are resolved alike in states in
which their names mean the same. -/
theorem stands_replaces
    (same : ∀ name, P name → (here'.rows outer').lookup? name =
      ((here.rows outer).lookup? name).map (Variable.unlock id)) :
    ReplacesNames (Variable.unlock id) (Stands here here' outer outer')
      (fun xs ys => ys.Sublist xs) P
      fun name => ((here.rows outer).lookup? name).isSome where
  toReplacement := replacement_unlock id
  lookup name known := by
    rintro _ _ ⟨rfl, rfl⟩
    rw [run_visibleVariable, run_visibleVariable]
    exact ⟨⟨rfl, rfl⟩, same name known, .refl _⟩
  function name := by
    rintro _ _ ⟨rfl, rfl⟩
    rw [run_visibleFunction, run_visibleFunction]
    exact ⟨⟨rfl, rfl⟩, rfl, .refl _⟩
  assignee name type := by
    rintro known visible _ _ ⟨rfl, rfl⟩
    obtain ⟨v, found⟩ := Option.isSome_iff_exists.1 visible
    have found' := same name known
    rw [found, Option.map_some] at found'
    rw [run_assignee type found, run_assignee type found']
    exact ⟨⟨rfl, rfl⟩, rfl, .refl _⟩

end Resolving

end Scriptlet
