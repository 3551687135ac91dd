import Scriptlet.Proofs.Declaring.Sessions
import Scriptlet.Proofs.ReadOnly.Places
import Scriptlet.Proofs.ReadOnly.Writers
import Scriptlet.Proofs.Renaming.Sessions

/-!
# Read-only variables never change

In a chain of submissions without problems every read-only variable has a single
place, in a single submission. So no step of an evaluation changes its entry but
those of its declaration and, if it is the variable of a counting loop, of the
step of that loop. Later submissions of a session have places with new identities
only, so what was stored once stays.
-/

namespace Scriptlet

/-- The entry of a variable changes in steps of a program only where one of some
statements is run. -/
def Program.ChangesOnlyBy (p : Program) (v : Variable) (writers : List Bound.Stmt) : Prop :=
  ∀ m : Machine, (m.step p).memory.store.get? v ≠ m.memory.store.get? v →
    ∃ s ∈ writers, p[m.index]? = some s

namespace Program

open Scriptlet.Bound

/-- Only the statements that write to a variable change its entry. -/
theorem changesOnlyBy_writes (p : Program) (v : Variable) :
    p.ChangesOnlyBy v (p.filter (Stmt.writes v)) := by
  intro m changes
  obtain ⟨s, hs, writes⟩ := Machine.exists_writes_of_step changes
  exact ⟨s, List.mem_filter.2 ⟨List.mem_of_getElem? hs, writes⟩, hs⟩

end Program

namespace Submission

open Scriptlet.Bound Syntax Rows

variable {s t : Submission} {earlier chain : List Submission} {nextId behind bound : Nat}
  {v : Variable}

/-- A read-only variable to which a submission gives a value is one of those that
the submission introduces. -/
theorem Follows.between (h : s.Follows earlier nextId behind) (readOnly : v.isReadOnly = true)
    (hv : v ∈ s.statement.targets) : nextId ≤ v.id ∧ v.id < behind :=
  h.elaborates.rising.between v (List.mem_filter.2 ⟨hv, readOnly⟩)

/-- A read-only variable has a single place in a submission at most. -/
theorem Follows.count_eq_one (h : s.Follows earlier nextId behind)
    (readOnly : v.isReadOnly = true) (hv : v ∈ s.statement.targets) :
    s.statement.targets.count v = 1 := by
  have among : v ∈ readOnlyTargets s.statement.sites := List.mem_filter.2 ⟨hv, readOnly⟩
  have once := h.elaborates.rising.nodup.count (a := v)
  rwa [if_pos among, readOnlyTargets, List.count_filter readOnly] at once

/-- Every submission of an ordered chain follows the rules behind a flawless one. -/
theorem Ordered.exists_follows (h : Ordered chain bound) (hs : s ∈ chain) :
    ∃ earlier nextId behind, Flawless earlier ∧ s.Follows earlier nextId behind := by
  induction h with
  | nil => cases hs
  | cons inner text clean _ ih =>
    rcases List.mem_cons.1 hs with rfl | hs
    · exact ⟨_, _, _, inner.flawless, follows_ofText inner.flawless.proper clean⟩
    · exact ih hs

/-- The places of a submission are among those of the chain. -/
theorem sites_subset (hs : s ∈ chain) : s.statement.sites ⊆ sites chain := by
  induction chain with
  | nil => cases hs
  | cons newest earlier ih =>
    rcases List.mem_cons.1 hs with rfl | hs
    · exact List.subset_append_right _ _
    · exact List.subset_append_of_subset_left _ (ih hs)

/-- The targets of the submissions of an ordered chain are below the bound. -/
theorem Ordered.targets_below (h : Ordered chain bound) (hs : s ∈ chain)
    (hv : v ∈ s.statement.targets) : v.id < bound := by
  obtain ⟨site, hsite, rfl⟩ := List.mem_map.1 hv
  exact h.idsBelow.2 site (sites_subset hs hsite)

/-- No two submissions of an ordered chain give a value to the same read-only
variable. -/
theorem Ordered.eq_of_targets (h : Ordered chain bound) (hs : s ∈ chain) (ht : t ∈ chain)
    (readOnly : v.isReadOnly = true) (hv : v ∈ s.statement.targets)
    (hv' : v ∈ t.statement.targets) : s = t := by
  induction h with
  | nil => cases hs
  | cons inner text clean _ ih =>
    have follows := follows_ofText inner.flawless.proper clean
    rcases List.mem_cons.1 hs with rfl | hs <;> rcases List.mem_cons.1 ht with rfl | ht
    · rfl
    · exact absurd (inner.targets_below ht hv') (Nat.not_lt.2 (follows.between readOnly hv).1)
    · exact absurd (inner.targets_below hs hv) (Nat.not_lt.2 (follows.between readOnly hv').1)
    · exact ih hs ht

/-- Steps of other submissions do not change the entry of a read-only variable. -/
theorem Ordered.changesOnlyBy_nil (h : Ordered chain bound) (hs : s ∈ chain) (ht : t ∈ chain)
    (other : t ≠ s) (readOnly : v.isReadOnly = true) (hv : v ∈ s.statement.targets) :
    t.program.ChangesOnlyBy v [] := by
  obtain ⟨_, _, _, flawless, follows⟩ := h.exists_follows ht
  have structured := (follows.wellTyped flawless.proper).structured
  have absent : v ∉ t.statement.targets := fun hv' =>
    other (h.eq_of_targets hs ht readOnly hv hv').symm
  have nothing : t.program.filter (Stmt.writes v) = [] :=
    Stmt.filter_writes_code structured absent _ 0
  rw [← nothing]
  exact t.program.changesOnlyBy_writes v

end Submission

namespace Session

open Scriptlet.Bound Submission

/-- A session leads to those that come of it by submitting texts, one after the
other, where the next text may be set to continue any chain without problems. No
submission is evaluated again, and the store is not cleared. -/
inductive Leads : Session → Session → Prop where
  | refl (s : Session) : Leads s s
  | submit {s between after : Session} (before : Leads s between) {text : String} {steps : Nat}
      {inputs : List String} {submission : Submission} {evaluated : Evaluated}
      (run : between.submit steps inputs (.ofText text) = some (submission, evaluated, after)) :
      Leads s after
  | rewind {s between : Session} (before : Leads s between) {chain : List Submission}
      (flawless : Flawless chain) : Leads s (between.rewind chain)

variable {s after later : Session} {submission : Submission} {evaluated : Evaluated}
  {steps : Nat} {inputs : List String} {text : String} {v : Variable}

/-- Submitting a text extends a chain without problems to one without problems, and
gives no identity back. -/
theorem flawless_of_submit (flawless : Flawless s.chain)
    (run : s.submit steps inputs (.ofText text) = some (submission, evaluated, after)) :
    Flawless after.chain ∧ s.nextId ≤ after.nextId := by
  obtain ⟨rfl, memory, hrun, rfl⟩ := exists_of_submit run
  have grows : s.nextId ≤ (s.compile (.ofText text)).2.nextId :=
    nextId_le_compile s.chain s.nextId (.ofText text)
  cases houtcome : evaluated.outcome with
  | rejected problems => exact ⟨flawless, grows⟩
  | failed fault => exact ⟨flawless, grows⟩
  | finished value =>
    have clean := diagnostics_of_evaluate hrun fun problems => by rw [houtcome]; exact nofun
    exact ⟨.cons flawless s.nextId text clean, grows⟩

/-- The read-only variables that get values in a submission are older than the
session behind it. -/
theorem id_lt_of_submit (flawless : Flawless s.chain) (readOnly : v.isReadOnly = true)
    (run : s.submit steps inputs (.ofText text) = some (submission, evaluated, after))
    (clean : submission.diagnostics = []) (hv : v ∈ submission.statement.targets) :
    v.id < after.nextId := by
  obtain ⟨rfl, memory, -, rfl⟩ := exists_of_submit run
  have below := ((follows_ofText flawless.proper clean).between readOnly hv).2
  cases evaluated.outcome <;> exact below

/-- Submitting a text does not change the entry of an older read-only variable. -/
theorem get?_of_submit (flawless : Flawless s.chain) (readOnly : v.isReadOnly = true)
    (older : v.id < s.nextId)
    (run : s.submit steps inputs (.ofText text) = some (submission, evaluated, after)) :
    after.store.get? v = s.store.get? v := by
  obtain ⟨rfl, memory, hrun, rfl⟩ := exists_of_submit run
  have follows (clean : (s.compile (.ofText text)).1.diagnostics = []) :=
    follows_ofText flawless.proper clean
  have kept : memory.store.get? v = s.store.get? v := by
    refine keeps_evaluate (P := (·.get? v = s.store.get? v))
      (fun clean => ((follows clean).wellTyped flawless.proper).structured)
      (fun clean => outlasts_get? (fun site hsite same => ?_) _) rfl hrun
    have newer := ((follows clean).between readOnly (List.mem_map.2 ⟨site, hsite, same⟩)).1
    exact absurd older (Nat.not_lt.2 newer)
  cases evaluated.outcome <;> exact kept

/-- What a session leads to has the same entry for an older read-only variable. -/
theorem Leads.get?_eq (h : s.Leads later) (flawless : Flawless s.chain)
    (readOnly : v.isReadOnly = true) (older : v.id < s.nextId) :
    Flawless later.chain ∧ s.nextId ≤ later.nextId ∧ later.store.get? v = s.store.get? v := by
  induction h with
  | refl => exact ⟨flawless, Nat.le_refl _, rfl⟩
  | submit _ run ih =>
    obtain ⟨flawless', grows, same⟩ := ih
    obtain ⟨extended, grows'⟩ := flawless_of_submit flawless' run
    have kept := get?_of_submit flawless' readOnly (Nat.lt_of_lt_of_le older grows) run
    exact ⟨extended, Nat.le_trans grows grows', kept.trans same⟩
  | rewind _ chain ih =>
    obtain ⟨-, grows, same⟩ := ih
    exact ⟨chain, grows, same⟩

/-- A submission that declares a variable leaves the value of the submission as
that of the variable. -/
theorem get?_of_declaration {initializer : Expr}
    (run : s.submit steps inputs (.ofText text) = some (submission, evaluated, after))
    (declares : submission.statement = .declaration v initializer) {value : Value}
    (finished : evaluated.outcome = .finished value) : after.store.get? v = some value := by
  obtain ⟨rfl, memory, hrun, rfl⟩ := exists_of_submit run
  have clean := diagnostics_of_evaluate hrun fun problems => by rw [finished]; exact nofun
  have structured : (s.compile (.ofText text)).1.statement.Structured := by
    rw [declares]
    exact .declaration v initializer
  obtain ⟨rounds, result, means, outcome⟩ :=
    (exists_evaluate_iff_interpret clean structured).1 ⟨steps, hrun⟩
  rw [finished] at outcome
  cases result with
  | error fault => cases outcome
  | ok value' =>
    cases outcome
    rw [declares, Stmt.interpret, Meaning.ofEvaluating, Option.some.injEq] at means
    obtain ⟨result, between, -, stored⟩ := Evaluating.exists_of_on_bind means
    rw [finished]
    cases stored
    exact Store.get?_insert_self ..

/-- Read-only variables never change. In a chain of submissions without problems, a
variable that `let` declares is written to by its declaration alone, and the
variable of a counting loop by the declaration and the one step that lowering
makes for that loop; no step of an evaluation of any submission of the chain, on
any store, changes the entry of the variable except where it runs one of these.
Once a submission that declares a variable with `let` has run to its end, the
variable has its value in all that the session leads to, whether the submissions
behind it succeed, have problems or fail, and whatever they declare. -/
theorem readOnly_never_changes :
    (∀ chain bound, Ordered chain bound → ∀ s ∈ chain, ∀ v,
      (∀ initializer, v.isReadOnly = true → .declaration v initializer ∈ s.statement.parts →
        s.program.filter (Stmt.writes v) = [.declaration v initializer] ∧
        s.program.ChangesOnlyBy v [.declaration v initializer] ∧
        ∀ t ∈ chain, t ≠ s → t.program.ChangesOnlyBy v []) ∧
      (∀ lower upper body, .forLoop v lower upper body ∈ s.statement.parts →
        s.program.filter (Stmt.writes v) = [.declaration v lower, countingStep v] ∧
        s.program.ChangesOnlyBy v [.declaration v lower, countingStep v] ∧
        ∀ t ∈ chain, t ≠ s → t.program.ChangesOnlyBy v [])) ∧
    (∀ (s after later : Session) (steps : Nat) (inputs : List String) (text : String)
      (submission : Submission) (evaluated : Evaluated) (v : Variable) (initializer : Expr)
      (value : Value), Flawless s.chain →
        s.submit steps inputs (.ofText text) = some (submission, evaluated, after) →
        submission.statement = .declaration v initializer → v.isReadOnly = true →
        evaluated.outcome = .finished value → after.Leads later →
          later.store.get? v = some value) := by
  constructor
  · intro chain bound ordered s hs v
    obtain ⟨_, _, _, flawless, follows⟩ := ordered.exists_follows hs
    have structured := (follows.wellTyped flawless.proper).structured
    have only {writers : List Stmt} (h : s.program.filter (Stmt.writes v) = writers) :
        s.program.ChangesOnlyBy v writers := h ▸ s.program.changesOnlyBy_writes v
    constructor
    · intro initializer readOnly part
      have hv : v ∈ s.statement.targets := (Stmt.targets_parts _ part).subset (by simp)
      have writers := Stmt.filter_writes_declaration structured part
        (follows.count_eq_one readOnly hv)
      exact ⟨writers, only writers, fun t ht other =>
        ordered.changesOnlyBy_nil hs ht other readOnly hv⟩
    · intro lower upper body part
      have readOnly := follows.elaborates.isReadOnly_of_forLoop part
      have hv : v ∈ s.statement.targets := (Stmt.targets_parts _ part).subset (by simp)
      have writers := Stmt.filter_writes_forLoop structured part (follows.count_eq_one readOnly hv)
      exact ⟨writers, only writers, fun t ht other =>
        ordered.changesOnlyBy_nil hs ht other readOnly hv⟩
  · intro s after later steps inputs text submission evaluated v initializer value flawless run
      declares readOnly finished leads
    have stored := get?_of_declaration run declares finished
    obtain ⟨extended, -⟩ := flawless_of_submit flawless run
    have clean : submission.diagnostics = [] := by
      obtain ⟨rfl, memory, hrun, -⟩ := exists_of_submit run
      exact diagnostics_of_evaluate hrun fun problems => by rw [finished]; exact nofun
    have older := id_lt_of_submit flawless readOnly run clean (by rw [declares]; simp)
    exact (leads.get?_eq extended readOnly older).2.2.trans stored

/-- A submission that declares a variable with `let`. -/
def constantSample : Submission := (Submission.compile [] 0 (.ofText "let x = 2")).1

/-- A submission that counts up to the variable. -/
def roundsSample : Submission :=
  (Submission.compile [constantSample] 1 (.ofText "for i = 1 to x print(\"round\")")).1

/-- The session behind the submission that declares the variable. -/
def declaredSample : Session :=
  ⟨[constantSample], ⟨[(⟨0, "x", .int, true⟩, .int 2)]⟩, 1, .ofSeed 0⟩

/-- The session behind a submission that declares the name again and then fails. -/
def redeclaredSample : Session :=
  { declaredSample with
    store := ⟨[(⟨0, "x", .int, true⟩, .int 2), (⟨1, "x", .int, true⟩, .int 3)]⟩, nextId := 2 }

/-- The loop alone writes to its variable, and the constant keeps its value behind a
submission that declares the name again and fails, and behind one that would
assign to it. -/
theorem readOnly_never_changes_roundsSample :
    roundsSample.program.filter (Stmt.writes ⟨1, "i", .int, true⟩) =
      [.declaration ⟨1, "i", .int, true⟩ (.literal (.int 1)),
        countingStep ⟨1, "i", .int, true⟩] ∧
    constantSample.program.ChangesOnlyBy ⟨0, "x", .int, true⟩
      [.declaration ⟨0, "x", .int, true⟩ (.literal (.int 2))] ∧
    (start (.ofSeed 0)).submit 2 [] (.ofText "let x = 2") =
      some (constantSample, ⟨.finished (.int 2), [], []⟩, declaredSample) ∧
    (∃ failing, declaredSample.submit 4 [] (.ofText "\x7b let x = 3 x / 0 \x7d") =
      some (failing, ⟨.failed .divisionByZero, [], []⟩, redeclaredSample)) ∧
    ∃ rejecting evaluated later,
      redeclaredSample.submit 0 [] (.ofText "x = 5") = some (rejecting, evaluated, later) ∧
      later.store.get? ⟨0, "x", .int, true⟩ = some (.int 2) := by
  have chain : Ordered [roundsSample, constantSample] 2 :=
    .cons (.cons (.nil 0) "let x = 2" rfl (Nat.le_refl 1)) "for i = 1 to x print(\"round\")" rfl
      (Nat.le_refl 2)
  obtain ⟨steps, sessions⟩ := readOnly_never_changes
  have loop := (steps _ 2 chain roundsSample List.mem_cons_self ⟨1, "i", .int, true⟩).2
    (.literal (.int 1)) (.name ⟨0, "x", .int, true⟩)
    (.expression (.call .print [.literal (.string "round")])) List.mem_cons_self
  have constant := (steps _ 2 chain constantSample (by simp) ⟨0, "x", .int, true⟩).1
    (.literal (.int 2)) rfl List.mem_cons_self
  have first : (start (.ofSeed 0)).submit 2 [] (.ofText "let x = 2") =
      some (constantSample, ⟨.finished (.int 2), [], []⟩, declaredSample) := rfl
  have second : declaredSample.submit 4 [] (.ofText "\x7b let x = 3 x / 0 \x7d") =
      some (_, ⟨.failed .divisionByZero, [], []⟩, redeclaredSample) := rfl
  have third : redeclaredSample.submit 0 [] (.ofText "x = 5") = some (_, _, _) := rfl
  have leads := (Leads.refl declaredSample).submit second |>.submit third
  exact ⟨loop.1, constant.2.1, first, ⟨_, second⟩, _, _, _, third,
    sessions _ _ _ _ _ _ _ _ _ _ _ .nil first rfl rfl rfl leads⟩

end Session

end Scriptlet
