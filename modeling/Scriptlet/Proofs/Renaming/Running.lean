import Scriptlet.Proofs.Renaming.Resolving

/-!
# Running commutes with renaming

As long as a renaming keeps variables apart, a program with renamed variables
does on a store with renamed variables what it does by their old identities: it
gives the same values, fails with the same faults, prints and reads the same and
leaves the renamed store. One step of the machine commutes with the renaming,
and so do all runs.
-/

namespace Scriptlet

variable {f : Nat → Nat}

/-- The memory with the identities of all variables renamed. -/
def Memory.rename (f : Nat → Nat) (m : Memory) : Memory := { m with store := m.store.rename f }

namespace Evaluating

/-- On a renamed memory the second evaluation ends as the first one does, and
leaves what that leaves, renamed. -/
def Follows (f : Nat → Nat) {α : Type} (m m' : Evaluating α) : Prop :=
  ∀ memory, m'.on (memory.rename f) = ((m.on memory).1, (m.on memory).2.rename f)

variable {α β : Type} {m m' : Evaluating α} {k k' : α → Evaluating β}

theorem follows_pure (a : α) : Follows f (pure a) (pure a) := fun _ => rfl

theorem follows_lift (result : Except Fault α) : Follows f (lift result) (lift result) :=
  fun _ => rfl

theorem follows_fail (fault : Fault) : Follows f (fail fault : Evaluating α) (fail fault) :=
  fun _ => rfl

/-- A sequence commutes with renaming if its parts do. -/
theorem Follows.bind (first : Follows f m m') (second : ∀ a, Follows f (k a) (k' a)) :
    Follows f (m >>= k) (m' >>= k') := by
  intro memory
  have part := first memory
  rw [on_bind, on_bind, part]
  rcases m.on memory with ⟨fault | a, behind⟩
  · rfl
  · exact second a behind

/-- The renamed variable has the value in the renamed store. -/
theorem follows_read (h : f.Injective) (v : Variable) :
    Follows f (read v) (read (v.rename f)) := by
  intro memory
  have found := memory.store.rename_get? h v
  simp only [read, on_bind, on_memory, Memory.rename, found, Variable.rename_name]
  cases memory.store.get? v <;> rfl

/-- The renamed variable gets the value in the renamed store. -/
theorem follows_write (h : f.Injective) (v : Variable) (value : Value) :
    Follows f (write v value) (write (v.rename f) value) := by
  intro memory
  have written := memory.store.rename_insert h v value
  simp only [write, on_bind, on_memory, on_setMemory, Memory.rename, written]

/-- Draws do not depend on identities. -/
theorem follows_random (bound : Int32) : Follows f (random bound) (random bound) := by
  intro memory
  unfold random
  split <;> rfl

/-- Functions do not depend on identities. -/
theorem follows_call (function : Function) (arguments : List Value) :
    Follows f (call function arguments) (call function arguments) := by
  unfold call
  split
  · split
    · exact fun _ => rfl
    · exact follows_fail _
  · split
    · exact fun _ => rfl
    · split
      · split
        · exact (follows_random _).bind fun drawn => follows_pure _
        · exact follows_fail _
      · exact follows_fail _

end Evaluating

namespace Bound

open Evaluating

mutual

/-- Evaluating an expression commutes with renaming. -/
theorem Expr.follows_evaluate (h : f.Injective) (e : Expr) :
    Follows f e.evaluate (e.rename f).evaluate := by
  cases e with
  | literal value => exact follows_pure value
  | name target => exact follows_read h target
  | assignment target value =>
    rw [Expr.rename, Expr.evaluate, Expr.evaluate]
    refine (value.follows_evaluate h).bind fun result => ?_
    exact (follows_write h target result).bind fun _ => follows_pure result
  | unary operator operand =>
    rw [Expr.rename, Expr.evaluate, Expr.evaluate]
    exact (operand.follows_evaluate h).bind fun value => follows_lift _
  | binary left operator right =>
    rw [Expr.rename, Expr.evaluate, Expr.evaluate]
    refine (left.follows_evaluate h).bind fun leftValue => ?_
    cases operator.decisive? with
    | none => exact (right.follows_evaluate h).bind fun rightValue => follows_lift _
    | some decisive =>
      refine (follows_lift _).bind fun b => ?_
      split
      · exact follows_pure leftValue
      · refine (right.follows_evaluate h).bind fun rightValue => ?_
        exact (follows_lift _).bind fun b => follows_pure _
  | call function arguments =>
    rw [Expr.rename, Expr.evaluate, Expr.evaluate]
    exact (Expr.follows_evaluateAll h arguments).bind fun values => follows_call function values
  | error => exact follows_fail _

/-- Evaluating a row of expressions commutes with renaming. -/
theorem Expr.follows_evaluateAll (h : f.Injective) (es : List Expr) :
    Follows f (Expr.evaluateAll es) (Expr.evaluateAll (Expr.renameAll f es)) := by
  cases es with
  | nil => exact follows_pure []
  | cons e es =>
    rw [Expr.renameAll, Expr.evaluateAll, Expr.evaluateAll]
    refine (e.follows_evaluate h).bind fun value => ?_
    exact (Expr.follows_evaluateAll h es).bind fun values => follows_pure _

end

end Bound

/-- The program with the identities of all variables renamed. -/
def Program.rename (f : Nat → Nat) (p : Program) : Program := p.map (Bound.Stmt.rename f)

/-- The machine on the renamed memory. -/
def Machine.rename (f : Nat → Nat) (m : Machine) : Machine := { m with memory := m.memory.rename f }

/-- The progress on the renamed memory. -/
def Progress.rename (f : Nat → Nat) : Progress → Progress
  | .halted result memory => .halted result (memory.rename f)
  | .running machine => .running (machine.rename f)

namespace Machine

open Evaluating

variable (p : Program)

/-- A jump leads to the same place in a renamed program. -/
theorem goto_rename (target : Label) : goto (p.rename f) target = goto p target := by
  rw [goto, goto, Program.rename, Program.placement?_rename]

/-- What a statement does commutes with renaming. -/
theorem follows_execute (h : f.Injective) (index : Nat) (last : Value) (s : Bound.Stmt) :
    Follows f (execute p index last s) (execute (p.rename f) index last (s.rename f)) := by
  cases s with
  | declaration target initializer =>
    refine (initializer.follows_evaluate h).bind fun value => ?_
    exact (follows_write h target value).bind fun _ => follows_pure _
  | expression inner => exact (inner.follows_evaluate h).bind fun value => follows_pure _
  | goto target =>
    rw [Bound.Stmt.rename, execute, execute, goto_rename]
    exact (follows_lift _).bind fun index => follows_pure _
  | gotoIf target condition expected =>
    rw [Bound.Stmt.rename, execute, execute, goto_rename]
    refine (condition.follows_evaluate h).bind fun value => (follows_lift _).bind fun b => ?_
    split
    · exact (follows_lift _).bind fun index => follows_pure _
    · exact follows_pure _
  | label placed => exact follows_pure _
  | block | ifThen | ifElse | whileLoop | forLoop => exact follows_fail _

/-- A step of the machine commutes with renaming. -/
theorem step_rename (h : f.Injective) (m : Machine) :
    (m.rename f).step (p.rename f) = (m.step p).rename f := by
  have fetched : (p.rename f)[m.index]? = p[m.index]?.map (Bound.Stmt.rename f) :=
    List.getElem?_map
  rw [step, step, rename, fetched]
  cases p[m.index]? with
  | none => rfl
  | some s =>
    have executed := follows_execute p h m.index m.last s m.memory
    simp only [Option.map_some, executed]
    rcases (execute p m.index m.last s).on m.memory with ⟨fault | ⟨index, last⟩, behind⟩ <;> rfl

/-- Any number of steps commutes with renaming. -/
theorem advance_rename (h : f.Injective) (steps : Nat) (m : Machine) :
    (m.rename f).advance (p.rename f) steps = (m.advance p steps).rename f := by
  induction steps generalizing m with
  | zero => rfl
  | succ steps ih =>
    rw [advance, advance, step_rename p h]
    cases m.step p with
    | halted result memory => rfl
    | running next => exact ih next

end Machine

/-- Runs commute with renaming. -/
theorem Program.run_rename (h : f.Injective) (p : Program) (steps : Nat) (memory : Memory) :
    (p.rename f).run steps (memory.rename f) = (p.run steps memory).rename f :=
  Machine.advance_rename p h steps (.start memory)

/-- A submission with renamed variables has the outcome of the submission, on the
renamed memory. -/
theorem Submission.evaluate_rename (h : f.Injective) (s : Submission) (steps : Nat)
    (memory : Memory) :
    (s.rename f).evaluate steps (memory.rename f) =
      (s.evaluate steps memory).map fun ending => (ending.1, ending.2.rename f) := by
  have same : (s.rename f).diagnostics = s.diagnostics := rfl
  have lowered : (s.rename f).program = s.program.rename f := s.statement.lower_rename
  rw [evaluate, evaluate, same, lowered, Program.run_rename h]
  split
  · rcases s.program.run steps memory with ⟨_ | _, behind⟩ | machine <;> rfl
  · rfl

end Scriptlet
