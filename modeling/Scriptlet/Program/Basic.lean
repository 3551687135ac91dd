import Scriptlet.Bound.Text

/-!
# Flat programs

A program that can run is a row of statements with labels among them. A jump
goes to the place of its label; of several places the last one counts.
-/

namespace Scriptlet

/-- A row of statements, run from the first to the last except for jumps. -/
abbrev Program := List Bound.Stmt

namespace Program

/-- Index of the last place of a label. -/
def placement? (label : Label) : Program → Option Nat
  | [] => none
  | s :: rest =>
    match placement? label rest with
    | some i => some (i + 1)
    | none => if s.placed? = some label then some 0 else none

/-- Every jump, by its own index and that of the place it goes to. -/
def jumps (p : Program) : List (Nat × Option Nat) :=
  p.zipIdx.filterMap fun (s, i) => s.jump?.map fun label => (i, p.placement? label)

/-- The text of a program: statements one level in, labels at the margin. -/
def render (p : Program) : String := Bound.Stmt.renderAllAt 1 p

/-- A label has a place exactly if the program places it. -/
theorem placement?_isSome {label : Label} {p : Program} :
    (p.placement? label).isSome ↔ .label label ∈ p := by
  induction p with
  | nil => simp [placement?]
  | cons s rest ih =>
    rw [placement?]
    cases h : placement? label rest with
    | some i =>
      rw [h] at ih
      simpa using Or.inr (ih.1 rfl)
    | none =>
      rw [h] at ih
      cases s with
      | label placed =>
        by_cases e : placed = label
        · simp [Bound.Stmt.placed?, e]
        · simpa [Bound.Stmt.placed?, e, Ne.symm e] using ih
      | _ => simpa [Bound.Stmt.placed?] using ih

end Program

end Scriptlet
