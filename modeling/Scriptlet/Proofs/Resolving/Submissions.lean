import Scriptlet.Proofs.Resolving.Correct
import Scriptlet.Proofs.Resolving.Growth

/-!
# Submissions follow the rules

The scopes around a submission are the rows of the global variables of the
submissions it continues. A submission without problems is therefore what the
rules make of its tree inside these rows.
-/

namespace Scriptlet

namespace Rows

/-- The variables of a row can be told apart by their names, and all variables
have meaningful types. -/
structure Proper (rows : Rows) : Prop where
  meaningful : rows.Meaningful
  distinct : ∀ vars ∈ rows, (vars.map Variable.name).Nodup

/-- Variables with different names are all declared. -/
theorem foldl_declareVariable (done vars : List Variable) (outer : Rows)
    (distinct : ((done ++ vars).map Variable.name).Nodup) :
    vars.foldl (fun tree v => (tree.declareVariable (outer.length + 1) v).1)
      (tree (done :: outer)) = tree ((done ++ vars) :: outer) := by
  induction vars generalizing done with
  | nil => rw [List.append_nil, List.foldl_nil]
  | cons v vars ih =>
    have free : done.find? (·.name == v.name) = none := by
      rw [List.find?_eq_none]
      intro w hw hname
      rw [List.map_append, List.nodup_append] at distinct
      exact distinct.2.2 _ (List.mem_map_of_mem hw) v.name (by simp) (by simpa using hname)
    have split : done ++ v :: vars = (done ++ [v]) ++ vars := by simp
    rw [List.foldl_cons, declareVariable_tree, free]
    rw [split] at distinct ⊢
    exact ih (done ++ [v]) distinct

/-- The variables of the innermost scope are those of its row. -/
theorem varsIn_tree (vars : List Variable) (outer : Rows) :
    (tree (vars :: outer)).varsIn (outer.length + 1) = vars := by
  have here := get?_tree [] (vars :: outer)
  rw [List.nil_append, List.length_cons, scopes, List.head?_cons] at here
  rw [ScopeTree.varsIn, here]
  rfl

end Rows

namespace Submission

open Syntax Reporting Rows

/-- The rows of the global variables of submissions, listed from the newest on. -/
def rows (earlier : List Submission) : Rows := earlier.map globals

variable {s : Submission} {earlier : List Submission} {nextId : Nat} {source : Source}

/-- The scopes around a submission are those of the rows. -/
theorem outerScopes_eq (distinct : ∀ vars ∈ rows earlier, (vars.map Variable.name).Nodup) :
    outerScopes earlier = ((rows earlier).tree, earlier.length) := by
  induction earlier with
  | nil => rfl
  | cons newest older ih =>
    have hlength : (rows older).length = older.length := List.length_map _
    have hnewest : (newest.globals.map Variable.name).Nodup := distinct _ List.mem_cons_self
    have declared := foldl_declareVariable [] newest.globals (rows older) hnewest
    have pushed := push_tree (rows older)
    rw [hlength] at declared pushed
    rw [outerScopes, ih fun vars hvars => distinct vars (List.mem_cons_of_mem _ hvars)]
    simp only [pushed, declared]
    rfl

/-- Compiling is resolving in a fresh scope inside the rows. -/
theorem compile_eq (distinct : ∀ vars ∈ rows earlier, (vars.map Variable.name).Nodup) :
    compile earlier nextId source =
      let resolved := source.script.statement.resolve.run
        ((Frame.fresh nextId).scoping (rows earlier))
      (⟨source, resolved.value, resolved.state.tree.varsIn (earlier.length + 1),
        resolved.diagnostics⟩, resolved.state.nextId) := by
  have hlength : (rows earlier).length = earlier.length := List.length_map _
  have pushed := push_tree (rows earlier)
  rw [hlength] at pushed
  simp only [compile, outerScopes_eq distinct, pushed, Frame.scoping, hlength]
  rfl

/-- A submission is what the rules make of its tree behind earlier submissions,
with identities from one number up to another. -/
structure Follows (s : Submission) (earlier : List Submission) (nextId behind : Nat) : Prop where
  elaborates : s.source.script.statement.Elaborates (rows earlier) (.fresh nextId) s.statement
    ⟨s.globals, behind⟩
  clean : s.resolveDiagnostics = []

/-- What the rules make of a tree is what compiling makes of it. -/
theorem compile_of_elaborates {bound : Bound.Stmt} {there : Frame}
    (distinct : ∀ vars ∈ rows earlier, (vars.map Variable.name).Nodup)
    (h : source.script.statement.Elaborates (rows earlier) (.fresh nextId) bound there) :
    compile earlier nextId source = (⟨source, bound, there.vars, []⟩, there.nextId) := by
  have hlength : (rows earlier).length = earlier.length := List.length_map _
  have held := varsIn_tree there.vars (rows earlier)
  rw [hlength] at held
  rw [compile_eq distinct, h.run]
  simp only [Frame.scoping, Frame.rows, held]

/-- A complete tree that is compiled without a report follows the rules. -/
theorem follows_compile (proper : (rows earlier).Proper)
    (complete : source.script.statement.node.Complete)
    (clean : (compile earlier nextId source).1.resolveDiagnostics = []) :
    (compile earlier nextId source).1.Follows earlier nextId (compile earlier nextId source).2 := by
  have reported : (source.script.statement.resolve.run
      ((Frame.fresh nextId).scoping (rows earlier))).diagnostics = [] := by
    rwa [compile_eq proper.distinct] at clean
  obtain ⟨bound, there, h⟩ := source.script.statement.exists_elaborates complete
    (Frame.meaningful_fresh proper.meaningful) reported
  rw [compile_of_elaborates proper.distinct h]
  exact ⟨h, rfl⟩

/-- The rows stay proper when a submission is added that follows the rules. -/
theorem Follows.proper {behind : Nat} (h : s.Follows earlier nextId behind)
    (proper : (rows earlier).Proper) : (rows (s :: earlier)).Proper := by
  constructor
  · exact (h.elaborates.wellTyped (Frame.meaningful_fresh proper.meaningful)).2
  · intro vars hvars
    rcases List.mem_cons.1 hvars with rfl | hvars
    · exact h.elaborates.grows.distinct List.nodup_nil
    · exact proper.distinct vars hvars

/-- What follows the rules is well typed. -/
theorem Follows.wellTyped {behind : Nat} (h : s.Follows earlier nextId behind)
    (proper : (rows earlier).Proper) : s.statement.WellTyped :=
  (h.elaborates.wellTyped (Frame.meaningful_fresh proper.meaningful)).1

/-- A chain of submissions, listed from the newest on, each of them compiled
behind the others from a text without any problem. -/
inductive Flawless : List Submission → Prop where
  | nil : Flawless []
  | cons {earlier : List Submission} (chain : Flawless earlier) (nextId : Nat) (text : String)
      (clean : (compile earlier nextId (.ofText text)).1.diagnostics = []) :
      Flawless ((compile earlier nextId (.ofText text)).1 :: earlier)

/-- The submissions that a flawless one continues are flawless. -/
theorem Flawless.tail (h : Flawless (s :: earlier)) : Flawless earlier := by
  cases h with
  | cons chain => exact chain

/-- A text without any problem, compiled behind proper rows, follows the rules. -/
theorem follows_ofText {text : String} (proper : (rows earlier).Proper)
    (clean : (compile earlier nextId (.ofText text)).1.diagnostics = []) :
    (compile earlier nextId (.ofText text)).1.Follows earlier nextId
      (compile earlier nextId (.ofText text)).2 := by
  rw [diagnostics, List.append_eq_nil_iff] at clean
  exact follows_compile proper (Source.complete_ofText clean.1) clean.2

/-- The rows of a flawless chain are proper. -/
theorem Flawless.proper (h : Flawless earlier) : (rows earlier).Proper := by
  induction h with
  | nil =>
    constructor
    · exact fun _ hvars => absurd hvars List.not_mem_nil
    · exact fun _ hvars => absurd hvars List.not_mem_nil
  | cons chain nextId text clean ih => exact (follows_ofText ih clean).proper ih

/-- The newest submission of a flawless chain is well typed. -/
theorem Flawless.wellTyped (h : Flawless (s :: earlier)) : s.statement.WellTyped := by
  cases h with
  | cons chain nextId text clean =>
    exact (follows_ofText chain.proper clean).wellTyped chain.proper

end Submission

end Scriptlet
