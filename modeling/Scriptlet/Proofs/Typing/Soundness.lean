import Scriptlet.Proofs.Evaluation.Outcomes
import Scriptlet.Proofs.Resolving.Submissions
import Scriptlet.Proofs.Typing.Programs

/-!
# Sessions keep their types

Submissions without problems can be evaluated in any order and any number of
times, also behind a fault: the store stays typed, every expression that comes
to a value has a value of its static type, and the faults that remain are those
of a division and a variable without a value.
-/

namespace Scriptlet

namespace Bound

/-- The right operand is evaluated behind a value of the left one. -/
def takesRight (o : BinaryOperator) (left : Value) : Prop :=
  ∀ decisive ∈ o.decisive?, left = .bool !decisive

/-- While an expression is evaluated on a memory, `visited` is evaluated on the
memory `found`: the expression itself, or one inside it when its turn comes. -/
inductive Expr.Visits (visited : Expr) (found : Memory) : Expr → Memory → Prop where
  | here : Visits visited found visited found
  | assignment {target : Variable} {value : Expr} {memory : Memory}
      (inside : Visits visited found value memory) :
      Visits visited found (.assignment target value) memory
  | unary {o : UnaryOperator} {operand : Expr} {memory : Memory}
      (inside : Visits visited found operand memory) :
      Visits visited found (.unary o operand) memory
  | left {left right : Expr} {o : BinaryOperator} {memory : Memory}
      (inside : Visits visited found left memory) :
      Visits visited found (.binary left o right) memory
  | right {left right : Expr} {o : BinaryOperator} {memory between : Memory} {value : Value}
      (first : left.evaluate.on memory = (.ok value, between)) (goes : takesRight o value)
      (inside : Visits visited found right between) :
      Visits visited found (.binary left o right) memory
  | argument {f : Function} {before behind : List Expr} {argument : Expr}
      {memory between : Memory} {values : List Value}
      (first : (Expr.evaluateAll before).on memory = (.ok values, between))
      (inside : Visits visited found argument between) :
      Visits visited found (.call f (before ++ argument :: behind)) memory

/-- Whatever is evaluated inside a well-typed expression is well typed and meets
a typed store. -/
theorem Expr.Visits.wellTyped {visited e : Expr} {found memory : Memory}
    (h : Visits visited found e memory) (he : e.WellTyped) (hm : memory.store.Typed) :
    visited.WellTyped ∧ found.store.Typed := by
  induction h with
  | here => exact ⟨he, hm⟩
  | assignment _ ih =>
    cases he with
    | assignment _ _ part _ => exact ih part hm
  | unary _ ih =>
    cases he with
    | unary _ _ _ part _ => exact ih part hm
  | left _ ih =>
    cases he with
    | binary _ _ _ _ part _ _ _ => exact ih part hm
  | right first _ _ ih =>
    cases he with
    | binary _ _ _ _ part part' _ _ => exact ih part' (part.ensures.of_ok hm first).2
  | argument first _ ih =>
    cases he with
    | call _ _ _ parts _ =>
      have arguments := Expr.ensures_evaluateAll fun e he =>
        (parts e (List.mem_append_left _ he)).ensures
      exact ih (parts _ (by simp)) (arguments.of_ok hm first).2

/-- The expression that a simple statement evaluates. -/
def Stmt.evaluated? : Stmt → Option Expr
  | declaration _ initializer => some initializer
  | expression inner => some inner
  | gotoIf _ condition _ => some condition
  | _ => none

/-- What a statement of a well-typed program evaluates is well typed. -/
theorem Stmt.Fits.wellTyped {p : Program} {s : Stmt} (h : s.Fits p) {e : Expr}
    (he : s.evaluated? = some e) : e.WellTyped := by
  cases h with
  | declaration _ _ part _ => cases he; exact part
  | expression _ part => cases he; exact part
  | gotoIf _ _ _ test _ _ => cases he; exact test
  | goto | label => cases he

end Bound

namespace Program

open Scriptlet.Bound

/-- While a program runs on a memory, an expression is evaluated on the memory
`found`. -/
def Visits (p : Program) (memory : Memory) (visited : Expr) (found : Memory) : Prop :=
  ∃ m s e, Machine.Reaches p (.start memory) m ∧ p[m.index]? = some s ∧ s.evaluated? = some e ∧
    Expr.Visits visited found e m.memory

/-- Every expression that a well-typed program evaluates to a value has a value
of its static type. -/
theorem WellTyped.type_of_visits {p : Program} (hp : p.WellTyped) {memory found : Memory}
    (hm : memory.store.Typed) {visited : Expr} (h : p.Visits memory visited found)
    {value : Value} {behind : Memory} (he : visited.evaluate.on found = (.ok value, behind)) :
    value.type = visited.type := by
  obtain ⟨m, s, e, ⟨steps, hreaches⟩, hs, hevaluated, hvisits⟩ := h
  have sound := Machine.sound_advance hp steps (m := .start memory) hm
  rw [hreaches] at sound
  have typed := (hp s (List.mem_of_getElem? hs)).wellTyped hevaluated
  obtain ⟨hvisited, hfound⟩ := hvisits.wellTyped typed sound
  exact (hvisited.ensures.of_ok hfound he).1

end Program

namespace Submission

/-- The stores that evaluations of flawless submissions lead to from the empty
store, whatever chains the submissions stand in, whatever they read and draw,
and whether they finish or fail. -/
inductive Reached : Store → Prop where
  | empty : Reached .empty
  | evaluate {store : Store} (reached : Reached store) {s : Submission} {earlier : List Submission}
      (chain : Flawless (s :: earlier)) (inputs : List String) (draws : Draws) {steps : Nat}
      {outcome : Outcome} {after : Memory}
      (run : s.evaluate steps (.start store inputs draws) = some (outcome, after)) :
      Reached after.store

variable {s : Submission} {earlier : List Submission} {store : Store}

/-- The program of a flawless submission is well typed. -/
theorem Flawless.wellTyped_program (h : Flawless (s :: earlier)) : s.program.WellTyped :=
  h.wellTyped.code _ 0

/-- A flawless submission has no problems. -/
theorem Flawless.diagnostics_eq (h : Flawless (s :: earlier)) : s.diagnostics = [] := by
  cases h with
  | cons _ _ _ clean => exact clean

/-- On a typed store, a flawless submission finishes or runs into a permitted
fault, and leaves a typed store. -/
theorem Flawless.evaluate_sound (h : Flawless (s :: earlier)) {memory after : Memory}
    (hm : memory.store.Typed) {steps : Nat} {outcome : Outcome}
    (run : s.evaluate steps memory = some (outcome, after)) :
    ((∃ value, outcome = .finished value) ∨
      ∃ fault : Fault, outcome = .failed fault ∧ fault.Permitted) ∧ after.store.Typed := by
  have sound := Machine.sound_advance h.wellTyped_program steps (m := .start memory) hm
  obtain ⟨result, hrun, rfl⟩ := (evaluate_eq_some_iff h.diagnostics_eq).1 run
  rw [Program.run] at hrun
  rw [hrun] at sound
  cases result with
  | ok value => exact ⟨.inl ⟨value, rfl⟩, sound⟩
  | error fault => exact ⟨.inr ⟨fault, rfl, sound.1⟩, sound.2⟩

/-- Every store that flawless submissions lead to is typed. -/
theorem Reached.typed (h : Reached store) : store.Typed := by
  induction h with
  | empty => exact Store.typed_empty
  | evaluate _ chain _ _ run ih => exact (chain.evaluate_sound ih run).2

/-- Sessions keep their types. On every store that flawless submissions lead to,
a flawless submission finishes or fails with a division or a variable without a
value, whatever it reads and draws; either way every entry of the store behind
it has a value of the type of its variable. Every expression that it evaluates
to a value on the way, also in a run without an end, has a value of its static
type. -/
theorem evaluate_keeps_types (chain : Flawless (s :: earlier)) (reached : Reached store)
    (inputs : List String) (draws : Draws) :
    (∀ steps outcome after, s.evaluate steps (.start store inputs draws) = some (outcome, after) →
      ((∃ value, outcome = .finished value) ∨
        ∃ fault : Fault, outcome = .failed fault ∧ fault.Permitted) ∧ after.store.Typed) ∧
    ∀ visited found value after, s.program.Visits (.start store inputs draws) visited found →
      visited.evaluate.on found = (.ok value, after) → value.type = visited.type := by
  have typed := reached.typed
  refine ⟨fun steps outcome after run => ?_, fun visited found value after visits he => ?_⟩
  · exact chain.evaluate_sound typed run
  · exact chain.wellTyped_program.type_of_visits typed visits he

/-- Declares a variable by giving it a value. -/
def assigningSample : Submission := (compile [] 0 (.ofText "n = 3")).1

/-- Divides by what is left of the variable. -/
def dividingSample : Submission := (compile [assigningSample] 1 (.ofText "10 / (n - 3)")).1

/-- A submission that uses the variable of an earlier one fails with a division,
on a store that stays typed. -/
theorem evaluate_keeps_types_dividingSample :
    ∃ store after, Flawless [dividingSample, assigningSample] ∧ Reached store ∧
      dividingSample.evaluate 2 (.start store [] (.ofSeed 0)) =
        some (.failed .divisionByZero, after) ∧ after.store.Typed := by
  have chain : Flawless [dividingSample, assigningSample] :=
    .cons (.cons .nil 0 "n = 3" rfl) 1 "10 / (n - 3)" rfl
  have reached : Reached (Store.empty.insert ⟨0, "n", .int, false⟩ (.int 3)) :=
    .evaluate .empty chain.tail [] (.ofSeed 0)
      (show assigningSample.evaluate 2 _ = some (.finished (.int 3), ⟨_, ⟨[], #[]⟩, _⟩) from rfl)
  have ends := (evaluate_keeps_types chain reached [] (.ofSeed 0)).1 2
    (.failed .divisionByZero) _ rfl
  exact ⟨_, _, chain, reached, rfl, ends.2⟩

end Submission

end Scriptlet
