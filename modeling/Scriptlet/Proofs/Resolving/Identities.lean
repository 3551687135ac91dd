import Scriptlet.Proofs.Resolving.Primitives

/-!
# Identities are used up

Resolving counts the identities of variables upwards and never gives one back,
also where it reports problems. So whatever was compiled before, the variables
of a new submission differ from all older ones.
-/

namespace Scriptlet

namespace Resolving

open Reporting

/-- A computation gives no identity back. -/
def Advances {α : Type} (m : Resolving α) : Prop :=
  ∀ before : Scoping, before.nextId ≤ (m.run before).state.nextId

variable {α β : Type} {m : Resolving α} {f : α → Resolving β}

/-- A sequence gives no identity back if its parts do not. -/
theorem Advances.bind (h : Advances m) (h' : ∀ s, Advances (f (m.run s).value)) :
    Advances (m >>= f) := by
  intro before
  have first := h before
  have second := h' before (m.run before).state
  rw [run_bind]
  exact Nat.le_trans first second

/-- A scope of its own is opened and closed without an identity. -/
theorem Advances.inScope (h : Advances m) : Advances (inScope m) := by
  have opens : Advances openScope := fun _ => Nat.le_refl _
  have closes : Advances closeScope := fun _ => Nat.le_refl _
  exact opens.bind fun _ => h.bind fun _ => closes.bind fun _ _ => Nat.le_refl _

/-- Only a new variable uses an identity up, and nothing gives one back. -/
theorem closed_advances : Closed (fun _ => True) (fun _ => Advances) where
  pure _ _ := Nat.le_refl _
  bind := Advances.bind
  report _ _ _ _ := Nat.le_refl _
  visibleVariable _ _ := Nat.le_refl _
  visibleFunction _ _ := Nat.le_refl _
  newVariable _ _ _ _ := Nat.le_succ _
  declare _ _ := Nat.le_refl _
  inScope := Advances.inScope

end Resolving

/-- Compiling gives no identity back, whatever is wrong with the source. -/
theorem Submission.nextId_le_compile (earlier : List Submission) (nextId : Nat)
    (source : Syntax.Source) : nextId ≤ (compile earlier nextId source).2 := by
  have places : source.script.statement.node.Every fun _ => True :=
    (Syntax.Node.every_iff 0 _).2 fun _ _ => trivial
  exact Syntax.Stmt.closed_resolve Resolving.closed_advances _ places ⟨_, _, nextId⟩

end Scriptlet
