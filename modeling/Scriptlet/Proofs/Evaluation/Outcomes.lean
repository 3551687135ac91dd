import Scriptlet.Proofs.Lowering.Simulation
import Scriptlet.Session.Basic

/-!
# Outcomes of submissions

A submission without problems comes to the end of its flat program, and that is
the end which its statement means.
-/

namespace Scriptlet

/-- The outcome of a run that is over with a value or a fault. -/
def Outcome.ofResult : Except Fault Value → Outcome
  | .ok value => .finished value
  | .error fault => .failed fault

/-- An outcome tells the same end as a result, up to the value. -/
def Outcome.EndsAs (outcome : Outcome) : Except Fault Value → Prop
  | .ok _ => ∃ value, outcome = .finished value
  | .error fault => outcome = .failed fault

namespace Submission

variable {s : Submission} {steps : Nat} {memory after : Memory} {outcome : Outcome}

/-- A submission without problems has the outcome of its program. -/
theorem evaluate_eq_some_iff (clean : s.diagnostics = []) :
    s.evaluate steps memory = some (outcome, after) ↔
      ∃ result, s.program.run steps memory = .halted result after ∧ outcome = .ofResult result := by
  have runs : s.diagnostics.isEmpty = true := by rw [clean, List.isEmpty_nil]
  rw [evaluate, if_pos runs]
  cases s.program.run steps memory with
  | running m => simp
  | halted result behind =>
    constructor
    · intro h
      refine ⟨result, ?_⟩
      cases result <;> cases h <;> exact ⟨rfl, rfl⟩
    · rintro ⟨result', h, rfl⟩
      cases h
      cases result <;> rfl

/-- A submission with problems is rejected and changes nothing. -/
theorem evaluate_of_diagnostics (problems : s.diagnostics ≠ []) :
    s.evaluate steps memory = some (.rejected s.diagnostics, memory) := by
  have stops : ¬ s.diagnostics.isEmpty = true := by rwa [List.isEmpty_iff]
  rw [evaluate, if_neg stops]

/-- A submission that is not rejected has no problems. -/
theorem diagnostics_of_evaluate (run : s.evaluate steps memory = some (outcome, after))
    (ran : ∀ problems, outcome ≠ .rejected problems) : s.diagnostics = [] := by
  refine Classical.byContradiction fun problems => ?_
  rw [evaluate_of_diagnostics problems] at run
  cases run
  exact ran _ rfl

/-- A structured submission without problems has an outcome exactly if its
statement comes to that end. -/
theorem exists_evaluate_iff_interpret (clean : s.diagnostics = [])
    (structured : s.statement.Structured) :
    (∃ steps, s.evaluate steps memory = some (outcome, after)) ↔
      ∃ rounds result, s.statement.interpret rounds .void memory = some (result, after) ∧
        outcome = .ofResult result := by
  have agree := fun result => Bound.Stmt.exists_run_iff_interpret structured memory after result
  simp only [evaluate_eq_some_iff clean]
  constructor
  · rintro ⟨steps, result, hrun, rfl⟩
    obtain ⟨rounds, h⟩ := (agree result).1 ⟨steps, hrun⟩
    exact ⟨rounds, result, h, rfl⟩
  · rintro ⟨rounds, result, h, rfl⟩
    obtain ⟨steps, hrun⟩ := (agree result).2 ⟨rounds, h⟩
    exact ⟨steps, result, hrun, rfl⟩

end Submission

namespace Session

open Submission

/-- The session behind a run that left a memory. -/
def behind (s : Session) (memory : Memory) : Session :=
  { s with store := memory.store, draws := memory.draws }

variable {s after : Session} {submission : Submission} {steps : Nat} {inputs : List String}
  {evaluated : Evaluated} {memory : Memory} {outcome : Outcome}

/-- What an evaluation in a session gives is read off the memory that it leaves. -/
theorem evaluate_of_some
    (h : submission.evaluate steps (.start s.store inputs s.draws) = some (outcome, memory)) :
    s.evaluate steps inputs submission =
      some (⟨outcome, memory.console.printed.toList, memory.console.inputs⟩, s.behind memory) := by
  rw [evaluate, h]
  rfl

/-- An evaluation in a session is one of the submission on the store, the inputs
and the draws. -/
theorem exists_of_evaluate (h : s.evaluate steps inputs submission = some (evaluated, after)) :
    ∃ memory, submission.evaluate steps (.start s.store inputs s.draws) =
        some (evaluated.outcome, memory) ∧
      evaluated.printed = memory.console.printed.toList ∧
      evaluated.inputsLeft = memory.console.inputs ∧ after = s.behind memory := by
  rw [evaluate, Option.map_eq_some_iff] at h
  obtain ⟨⟨outcome, memory⟩, hrun, h⟩ := h
  cases h
  exact ⟨memory, hrun, rfl, rfl, rfl⟩

/-- Submitting compiles the source and evaluates what it has compiled. -/
theorem submit_eq (s : Session) (steps : Nat) (inputs : List String) (source : Syntax.Source) :
    s.submit steps inputs source =
      ((s.compile source).1.evaluate steps (.start s.store inputs s.draws)).map fun ending =>
        ((s.compile source).1,
          ⟨ending.1, ending.2.console.printed.toList, ending.2.console.inputs⟩,
          ((s.compile source).2.behind ending.2).extend (s.compile source).1 ending.1) := by
  simp only [submit, evaluate, Option.map_map]
  rfl

end Session

end Scriptlet
