import Scriptlet.Proofs.Renaming.Trees
import Scriptlet.Proofs.Replacing.Resolving
import Scriptlet.Proofs.Resolving.Identities

/-!
# Resolving commutes with renaming

A renaming that counts on from the next identity turns the resolution of a tree
into the one that begins with the renamed scopes and the renamed next identity:
the same reports, and the bound tree with its variables renamed. Compiling a
source behind a chain therefore depends on the identities in the chain and on
the next one only through such a renaming.
-/

namespace Scriptlet

/-- From a number on, the renaming counts as the identities do. -/
def CountsFrom (f : Nat → Nat) (n : Nat) : Prop := ∀ j, n ≤ j → f (j + 1) = f j + 1

theorem CountsFrom.mono {f : Nat → Nat} {n m : Nat} (h : CountsFrom f n) (le : n ≤ m) :
    CountsFrom f m := fun j hj => h j (Nat.le_trans le hj)

/-- The state of resolving with all identities renamed. -/
def Scoping.rename (f : Nat → Nat) (s : Scoping) : Scoping :=
  ⟨s.tree.rename f, s.current, f s.nextId⟩

namespace Resolving

open Reporting Scriptlet.Bound

/-- From the renamed state, the second computation gives the renamed result of the
first one and reports the same. -/
def RenamesTo {α : Type} (f : Nat → Nat) (m : Resolving α) (g : α → α) (m' : Resolving α) : Prop :=
  ∀ s : Scoping, CountsFrom f s.nextId →
    CountsFrom f (m.run s).state.nextId ∧
      m'.run (s.rename f) = ⟨g (m.run s).value, (m.run s).state.rename f, (m.run s).diagnostics⟩

variable {α : Type} {f : Nat → Nat} {g : α → α} {m m' : Resolving α}

/-- The renamed state, of a state from which the renaming counts on. -/
def Renamed (f : Nat → Nat) (s s' : Scoping) : Prop := CountsFrom f s.nextId ∧ s' = s.rename f

/-- What commutes with renaming is tracked between states and renamed ones. -/
theorem renamesTo_iff_tracks : RenamesTo f m g m' ↔ Tracks (Renamed f) Eq m g m' := by
  constructor
  · rintro commutes s _ ⟨counts, rfl⟩
    obtain ⟨counts', run⟩ := commutes s counts
    rw [run]
    exact ⟨⟨counts', rfl⟩, rfl, rfl⟩
  · intro tracks s counts
    obtain ⟨⟨counts', state⟩, value, reports⟩ := tracks s _ ⟨counts, rfl⟩
    rw [← value, ← state, reports]
    exact ⟨counts', rfl⟩

/-- Looking a name up finds the renamed variable. -/
theorem renamesTo_visibleVariable (name : String) :
    RenamesTo f (visibleVariable name) (Option.map (·.rename f)) (visibleVariable name) := by
  intro s counts
  have found := s.tree.rename_lookupVariable? (f := f) s.current name
  refine ⟨counts, ?_⟩
  simp only [visibleVariable, run_bind, run_state, run_pure, Scoping.rename, found]

/-- Functions are not renamed. -/
theorem renamesTo_visibleFunction (name : String) :
    RenamesTo f (visibleFunction name) id (visibleFunction name) := by
  intro s counts
  have found := s.tree.rename_lookupFunction? (f := f) s.current name
  refine ⟨counts, ?_⟩
  simp only [visibleFunction, run_bind, run_state, run_pure, Scoping.rename, found, id]

/-- A new variable has the renamed next identity. -/
theorem renamesTo_newVariable (name : String) (type : Ty) (isReadOnly : Bool) :
    RenamesTo f (newVariable name type isReadOnly) (·.rename f)
      (newVariable name type isReadOnly) := by
  intro s counts
  have next := counts s.nextId (Nat.le_refl _)
  refine ⟨counts.mono (Nat.le_succ _), ?_⟩
  simp only [newVariable, run_bind, run_state, run_setState, run_pure, Scoping.rename, next]
  rfl

/-- Renamed variables are declared in the renamed scopes. -/
theorem renamesTo_declare (v : Variable) : RenamesTo f (declare v) id (declare (v.rename f)) := by
  intro s counts
  refine ⟨counts, ?_⟩
  simp only [declare, run_bind, run_state, run_setState, run_pure, Scoping.rename,
    ScopeTree.rename_declareVariable]
  rfl

/-- Opening a scope commutes with renaming. -/
theorem renamesTo_openScope : RenamesTo f openScope id openScope := by
  intro s counts
  refine ⟨counts, ?_⟩
  simp only [openScope, run_modifyState, Scoping.rename, ScopeTree.rename_push, id]

/-- Closing a scope commutes with renaming. -/
theorem renamesTo_closeScope : RenamesTo f closeScope id closeScope := by
  intro s counts
  refine ⟨counts, ?_⟩
  simp only [closeScope, run_modifyState, Scoping.rename, ScopeTree.rename_pop, id]

/-- Renaming is a replacement of variables that resolving commutes with. -/
theorem renamed_replaces : ReplacesScopes (·.rename f) (fun _ => Renamed f) Eq where
  joins := ⟨rfl, fun _ => rfl, fun first second => by rw [first, second]⟩
  type _ := rfl
  mode _ := .inl rfl
  lookup _ name := renamesTo_iff_tracks.1 (renamesTo_visibleVariable name)
  function _ name := renamesTo_iff_tracks.1 (renamesTo_visibleFunction name)
  newVariable _ name type isReadOnly :=
    renamesTo_iff_tracks.1 (renamesTo_newVariable name type isReadOnly)
  declare _ v := renamesTo_iff_tracks.1 (renamesTo_declare v)
  openScope _ s s' related := (renamesTo_iff_tracks.1 renamesTo_openScope s s' related).1
  closeScope _ s s' related := (renamesTo_iff_tracks.1 renamesTo_closeScope s s' related).1

/-- Resolving a statement commutes with renaming. -/
theorem renamesTo_resolve (s : Syntax.Stmt) : RenamesTo f s.resolve (·.rename f) s.resolve := by
  have tracks := s.tracks_resolve (renamed_replaces (f := f)) 0
  simp only [← Stmt.rename_eq_replace] at tracks
  exact renamesTo_iff_tracks.2 tracks

end Resolving

namespace Submission

/-- The submission with the identities of its variables renamed. -/
def rename (f : Nat → Nat) (s : Submission) : Submission :=
  { s with
    statement := s.statement.rename f
    globals := s.globals.map (·.rename f) }

variable {f : Nat → Nat}

/-- The functions of the language stand in a scope without variables. -/
theorem rename_builtinScopes : builtinScopes.rename f = builtinScopes := by
  have whole : builtinScopes = ⟨#[⟨none, [], Function.builtins⟩]⟩ := by decide
  simp [whole, ScopeTree.rename, Scope.rename]

/-- Behind a chain with the global variables of another one renamed stand the
renamed scopes of that one. -/
theorem outerScopes_rename {chain chain' : List Submission}
    (same : chain'.map globals = chain.map fun s => s.globals.map (·.rename f)) :
    outerScopes chain' = ((outerScopes chain).1.rename f, (outerScopes chain).2) := by
  induction chain generalizing chain' with
  | nil =>
    rw [List.map_eq_nil_iff.1 same, outerScopes, rename_builtinScopes]
  | cons newest older ih =>
    obtain ⟨newest', older', rfl, renamed, rest⟩ := List.map_eq_cons_iff.1 same
    simp only [outerScopes, ih rest, renamed, ScopeTree.rename_push]
    rw [Prod.mk.injEq]
    refine ⟨?_, rfl⟩
    generalize ((outerScopes older).1.push (outerScopes older).2).1 = tree
    generalize ((outerScopes older).1.push (outerScopes older).2).2 = scope
    induction newest.globals generalizing tree with
    | nil => rfl
    | cons v vars ih =>
      rw [List.map_cons, List.foldl_cons, List.foldl_cons, ScopeTree.rename_declareVariable]
      exact ih _

/-- Compiling commutes with renaming, if the renaming counts on from the next
identity. -/
theorem compile_rename {chain chain' : List Submission} {nextId : Nat}
    (same : chain'.map globals = chain.map fun s => s.globals.map (·.rename f))
    (counts : CountsFrom f nextId) (source : Syntax.Source) :
    compile chain' (f nextId) source =
        ((compile chain nextId source).1.rename f, f (compile chain nextId source).2) ∧
      CountsFrom f (compile chain nextId source).2 := by
  have around := outerScopes_rename same
  have commutes := Resolving.renamesTo_resolve (f := f) source.script.statement
    ⟨((outerScopes chain).1.push (outerScopes chain).2).1,
      ((outerScopes chain).1.push (outerScopes chain).2).2, nextId⟩ counts
  refine ⟨?_, commutes.1⟩
  have hrun := commutes.2
  rw [Scoping.rename] at hrun
  simp only [compile, around, ScopeTree.rename_push, hrun, rename, Scoping.rename,
    ScopeTree.rename_varsIn]

end Submission

end Scriptlet
