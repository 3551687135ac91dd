import Scriptlet.Proofs.Recovery.Accounting
import Scriptlet.Proofs.Scanning.Layout

/-!
# What is parsed without a report is complete

A missing token stands in a tree only where a problem was reported. The tokens of
a text are all present and the last of them is the only end, so without a report
all leaves of the tree are tokens of the text.
-/

namespace Scriptlet.Syntax

namespace Node

/-- No token of a tree is missing. -/
def Complete (node : Node) : Prop := ∀ token ∈ node.leaves, token.isMissing = false

/-- No token of a row of trees is missing. -/
def AllComplete (nodes : List Node) : Prop :=
  ∀ token ∈ leavesOfAll nodes, token.isMissing = false

/-- A token alone is complete if it is not missing. -/
@[simp] theorem complete_leaf (token : Token) :
    (leaf token).Complete ↔ token.isMissing = false := by
  simp [Complete, leaves]

/-- A tree is complete if its branches are. -/
@[simp] theorem complete_branch (name : String) (span : Span) (children : List Node) :
    (branch name span children).Complete ↔ AllComplete children := by
  simp [Complete, AllComplete, leaves]

@[simp] theorem allComplete_nil : AllComplete [] := by simp [AllComplete, leavesOfAll]

/-- A row is complete if its first tree and the others are. -/
@[simp] theorem allComplete_cons (node : Node) (nodes : List Node) :
    AllComplete (node :: nodes) ↔ node.Complete ∧ AllComplete nodes := by
  simp [Complete, AllComplete, leavesOfAll, or_imp, forall_and]

@[simp] theorem allComplete_append (nodes nodes' : List Node) :
    AllComplete (nodes ++ nodes') ↔ AllComplete nodes ∧ AllComplete nodes' := by
  induction nodes with
  | nil => simp
  | cons node nodes ih => simp [ih, and_assoc]

end Node

/-- The tokens of a scanned text are those of a whole text. -/
theorem whole_tokenize (text : String) : Whole (tokenize text).tokens := by
  obtain ⟨inner, htokens, hinner⟩ := (Scan.covers_scanFrom 0 text.toList).ends
  rw [tokenize, htokens]
  exact .ended ⟨rfl, rfl⟩ (fun t ht => (hinner t ht).2.2) fun t ht => (hinner t ht).1

/-- A statement whose events report nothing is complete if no token is missing
among those taken. -/
theorem Stmt.AccountsFor.complete {s : Stmt} {events : List Event} (h : s.AccountsFor events)
    (silent : Event.reports events = [])
    (present : ∀ token ∈ Event.taken events, token.isMissing = false) : s.node.Complete := by
  have missing := Event.missing_leaves present
  rw [silent, ← h.leaves_eq] at missing
  cases hmissing : s.node.leaves.filter (·.isMissing) with
  | nil => simpa [Node.Complete] using hmissing
  | cons =>
    rw [hmissing] at missing
    cases missing

/-- A text without problems has a tree in which no token is missing. -/
theorem Source.complete_ofText {text : String} (clean : (ofText text).diagnostics = []) :
    (ofText text).script.statement.node.Complete := by
  have whole := whole_tokenize text
  obtain ⟨events, ended, found, ignored, part, -, split, -, reported, -⟩ := exists_accounting whole
  simp only [ofText, List.append_eq_nil_iff] at clean ⊢
  rw [clean.2, Event.reports_append, eq_comm, List.append_eq_nil_iff] at reported
  refine part.complete reported.1 fun token htoken => whole.present token ?_
  rw [split]
  exact List.mem_append_left _ htoken

end Scriptlet.Syntax
