import Scriptlet.Proofs.Resolving.Submissions

/-!
# Submissions are accepted exactly if they obey the rules

A text that scans and parses without a problem is resolved without a report
behind submissions without problems if and only if the rules of the language
give its tree a meaning there. The replacements for faulty parts therefore
neither hide a broken rule nor break one, and what is accepted is well typed and
means what the rules say.
-/

namespace Scriptlet

namespace Submission

open Syntax

variable {earlier : List Submission}

/-- A complete tree is resolved without a report behind proper rows exactly if
the rules give it a meaning. -/
theorem resolveDiagnostics_eq_nil_iff (proper : (rows earlier).Proper) (nextId : Nat)
    {source : Source} (complete : source.script.statement.node.Complete) :
    (compile earlier nextId source).1.resolveDiagnostics = [] ↔
      ∃ bound there, source.script.statement.Elaborates (rows earlier) (.fresh nextId) bound
        there := by
  constructor
  · intro clean
    have follows := follows_compile proper complete clean
    exact ⟨_, _, follows.elaborates⟩
  · rintro ⟨bound, there, elaborates⟩
    have compiled := compile_of_elaborates proper.distinct elaborates
    rw [compiled]

/-- Exactly what obeys the rules is accepted. Behind a chain of submissions
without problems, a text that scans and parses without a problem is resolved
without a report if and only if the rules give its tree a meaning inside the
global variables of the chain. The submission then is that meaning: its
statement is well typed, and its global variables and the identities it uses up
are those of the rules. -/
theorem accepted_iff_elaborates (chain : Flawless earlier) (nextId : Nat) (text : String)
    (parsed : (Source.ofText text).diagnostics = []) :
    ((compile earlier nextId (.ofText text)).1.resolveDiagnostics = [] ↔
      ∃ bound there, (Source.ofText text).script.statement.Elaborates (rows earlier)
        (.fresh nextId) bound there) ∧
    ∀ bound there, (Source.ofText text).script.statement.Elaborates (rows earlier)
        (.fresh nextId) bound there →
      compile earlier nextId (.ofText text) =
          (⟨.ofText text, bound, there.vars, []⟩, there.nextId) ∧
        bound.WellTyped := by
  have proper := chain.proper
  have complete := Source.complete_ofText parsed
  constructor
  · exact resolveDiagnostics_eq_nil_iff proper nextId complete
  · intro bound there elaborates
    have typed := elaborates.wellTyped (Frame.meaningful_fresh proper.meaningful)
    exact ⟨compile_of_elaborates proper.distinct elaborates, typed.1⟩

/-- A submission that declares a variable that can be written and another one
that cannot. -/
def declaringSample : Submission := (compile [] 0 (.ofText "if (n = 3) < 4 n = n + 1")).1

/-- Behind a submission that declares a variable, a text that counts with it
obeys the rules, and one that gives it a truth value obeys none of them. -/
theorem accepted_iff_elaborates_declaringSample :
    Flawless [declaringSample] ∧
      (∃ bound there, (Source.ofText "for i = 1 to n print(input())").script.statement.Elaborates
        (rows [declaringSample]) (.fresh 1) bound there ∧ bound.WellTyped) ∧
      ¬ ∃ bound there, (Source.ofText "n = true").script.statement.Elaborates
        (rows [declaringSample]) (.fresh 1) bound there := by
  have chain : Flawless [declaringSample] := .cons .nil 0 "if (n = 3) < 4 n = n + 1" rfl
  refine ⟨chain, ?_, fun obeys => ?_⟩
  · have agrees := accepted_iff_elaborates chain 1 "for i = 1 to n print(input())" rfl
    obtain ⟨bound, there, elaborates⟩ := agrees.1.1 rfl
    exact ⟨bound, there, elaborates, (agrees.2 bound there elaborates).2⟩
  · have agrees := accepted_iff_elaborates chain 1 "n = true" rfl
    have reports := agrees.1.2 obeys
    cases reports

end Submission

end Scriptlet
