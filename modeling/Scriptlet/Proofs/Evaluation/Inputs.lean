import Scriptlet.Proofs.Evaluation.Closed
import Scriptlet.Proofs.Evaluation.Outcomes
import Scriptlet.Proofs.Evaluation.Runs

/-!
# The lines that a run takes

A run takes lines from the front of what there is to be read. As long as some are left, it
has seen those that it took and no other ones. So a submission that comes to its end without
taking a line does so whatever there is to be read.
-/

namespace Scriptlet

/-- The memory with other lines to be read. -/
def Memory.offering (lines : List String) (memory : Memory) : Memory :=
  { memory with console := { memory.console with inputs := lines } }

namespace Evaluating

/-- Lines are taken from the front of the input. If some are left, all others might have been
different from what they are. -/
def SeesTaken {α : Type} (m : Evaluating α) : Prop :=
  ∀ memory, ∃ taken, memory.console.inputs = taken ++ (m.on memory).2.console.inputs ∧
    ((m.on memory).2.console.inputs ≠ [] → ∀ rest,
      m.on (memory.offering (taken ++ rest)) = ((m.on memory).1, (m.on memory).2.offering rest))

variable {α β : Type} {m : Evaluating α} {f : α → Evaluating β}

/-- What takes no line and does not look at any takes none of other lines. -/
theorem seesTaken_of_aloof
    (stays : ∀ memory, (m.on memory).2.console.inputs = memory.console.inputs)
    (aloof : ∀ memory rest,
      m.on (memory.offering rest) = ((m.on memory).1, (m.on memory).2.offering rest)) :
    SeesTaken m :=
  fun memory => ⟨[], (stays memory).symm, fun _ rest => aloof memory rest⟩

/-- A sequence takes the lines of its parts. -/
theorem SeesTaken.bind (h : SeesTaken m) (h' : ∀ a, SeesTaken (f a)) : SeesTaken (m >>= f) := by
  intro memory
  obtain ⟨taken, split, same⟩ := h memory
  rw [on_bind]
  rcases hm : m.on memory with ⟨fault | a, behind⟩
  · rw [hm] at split same
    refine ⟨taken, split, fun left rest => ?_⟩
    rw [on_bind, same left rest]
  · rw [hm] at split same
    obtain ⟨taken', split', same'⟩ := h' a behind
    refine ⟨taken ++ taken', ?_, fun left rest => ?_⟩
    · rw [List.append_assoc, ← split']
      exact split
    · have between : behind.console.inputs ≠ [] := by
        rw [split']
        exact List.append_ne_nil_of_right_ne_nil _ left
      rw [List.append_assoc, on_bind, same between]
      exact same' left rest

/-- A line is read from the front of those that there are. -/
theorem seesTaken_readLine : SeesTaken readLine := by
  rintro ⟨store, ⟨inputs, printed⟩, draws⟩
  cases inputs with
  | nil => exact ⟨[], rfl, fun left => absurd rfl left⟩
  | cons line lines => exact ⟨[line], rfl, fun _ _ => rfl⟩

/-- All steps of evaluating see no lines but those that they take. -/
theorem closed_seesTaken : Closed fun _ => SeesTaken where
  lift _ := seesTaken_of_aloof (fun _ => rfl) fun _ _ => rfl
  bind := SeesTaken.bind
  read v := by
    refine seesTaken_of_aloof (fun memory => ?_) fun memory rest => ?_
    · simp only [read, on_bind, on_memory]
      cases memory.store.get? v <;> rfl
    · simp only [read, on_bind, on_memory, Memory.offering]
      cases memory.store.get? v <;> rfl
  write _ _ := seesTaken_of_aloof (fun _ => rfl) fun _ _ => rfl
  print _ := seesTaken_of_aloof (fun _ => rfl) fun _ _ => rfl
  readLine := seesTaken_readLine
  random bound := by
    unfold random
    split <;> exact seesTaken_of_aloof (fun _ => rfl) fun _ _ => rfl

end Evaluating

/-- A machine on a memory with other lines to be read. -/
def Machine.offering (lines : List String) (m : Machine) : Machine :=
  { m with memory := m.memory.offering lines }

/-- What a run has come to, with other lines to be read from there on. -/
def Progress.offering (lines : List String) : Progress → Progress
  | .halted result memory => .halted result (memory.offering lines)
  | .running m => .running (m.offering lines)

namespace Machine

/-- A step sees no lines but those that it takes. -/
theorem step_seesTaken (p : Program) (m : Machine) :
    ∃ taken, m.memory.console.inputs = taken ++ (m.step p).memory.console.inputs ∧
      ((m.step p).memory.console.inputs ≠ [] → ∀ rest,
        (m.offering (taken ++ rest)).step p = (m.step p).offering rest) := by
  obtain ⟨index, last, memory⟩ := m
  simp only [step, offering]
  cases p[index]? with
  | none => exact ⟨[], rfl, fun _ _ => rfl⟩
  | some s =>
    obtain ⟨taken, split, same⟩ := closed_execute Evaluating.closed_seesTaken p index last s memory
    dsimp only
    rcases hm : (execute p index last s).on memory with ⟨fault | ⟨next, value⟩, behind⟩
    · rw [hm] at split same
      refine ⟨taken, split, fun left rest => ?_⟩
      rw [same left rest]
      rfl
    · rw [hm] at split same
      refine ⟨taken, split, fun left rest => ?_⟩
      rw [same left rest]
      rfl

/-- A run sees no lines but those that it takes. -/
theorem advance_seesTaken (p : Program) (steps : Nat) (m : Machine) :
    ∃ taken, m.memory.console.inputs = taken ++ (m.advance p steps).memory.console.inputs ∧
      ((m.advance p steps).memory.console.inputs ≠ [] → ∀ rest,
        (m.offering (taken ++ rest)).advance p steps = (m.advance p steps).offering rest) := by
  induction steps generalizing m with
  | zero => exact ⟨[], rfl, fun _ _ => rfl⟩
  | succ steps ih =>
    obtain ⟨taken, split, same⟩ := m.step_seesTaken p
    simp only [advance]
    cases hs : m.step p with
    | halted result memory =>
      rw [hs] at split same
      refine ⟨taken, split, fun left rest => ?_⟩
      rw [same left rest]
      rfl
    | running next =>
      rw [hs] at split same
      obtain ⟨taken', split', same'⟩ := ih next
      refine ⟨taken ++ taken', ?_, fun left rest => ?_⟩
      · rw [List.append_assoc, ← split']
        exact split
      · have between : next.memory.console.inputs ≠ [] := by
          rw [split']
          exact List.append_ne_nil_of_right_ne_nil _ left
        have goesOn := same between (taken' ++ rest)
        rw [List.append_assoc, goesOn]
        exact same' left rest

end Machine

/-- A submission that comes to its end and leaves lines has seen no lines but those that it
took. -/
theorem Submission.evaluate_seesTaken {s : Submission} {steps : Nat} {memory after : Memory}
    {outcome : Outcome} (run : s.evaluate steps memory = some (outcome, after)) :
    ∃ taken, memory.console.inputs = taken ++ after.console.inputs ∧
      (after.console.inputs ≠ [] → ∀ rest,
        s.evaluate steps (memory.offering (taken ++ rest)) =
          some (outcome, after.offering rest)) := by
  by_cases clean : s.diagnostics = []
  · obtain ⟨result, hrun, rfl⟩ := (evaluate_eq_some_iff clean).1 run
    obtain ⟨taken, split, same⟩ := (Machine.start memory).advance_seesTaken s.program steps
    rw [show (Machine.start memory).advance s.program steps = .halted result after from hrun]
      at split same
    refine ⟨taken, split, fun left rest => ?_⟩
    exact (evaluate_eq_some_iff clean).2 ⟨result, same left rest, rfl⟩
  · rw [evaluate_of_diagnostics clean] at run
    cases run
    exact ⟨[], rfl, fun _ rest => evaluate_of_diagnostics clean⟩

/-- A submission that comes to its end without taking a line, though there are lines, does so
whatever there is to be read. -/
theorem Session.submit_of_inputsLeft {s after : Session} {steps : Nat} {inputs : List String}
    {source : Syntax.Source} {submission : Submission} {evaluated : Evaluated}
    (answered : s.submit steps inputs source = some (submission, evaluated, after))
    (left : evaluated.inputsLeft = inputs) (offered : inputs ≠ []) (rest : List String) :
    s.submit steps rest source =
      some (submission, { evaluated with inputsLeft := rest }, after) := by
  rw [submit_eq, Option.map_eq_some_iff] at answered ⊢
  obtain ⟨⟨outcome, memory⟩, run, ends⟩ := answered
  cases ends
  have untouched : memory.console.inputs = inputs := left
  obtain ⟨taken, split, same⟩ := Submission.evaluate_seesTaken run
  rw [untouched] at split same
  obtain rfl : taken = [] := List.self_eq_append_left.1 split
  exact ⟨_, same offered rest, rfl⟩

end Scriptlet
