import Scriptlet.Proofs.Declaring.Settled
import Scriptlet.Proofs.Evaluation.Outcomes
import Scriptlet.Proofs.Resolving.Identities
import Scriptlet.Proofs.Resolving.Submissions

/-!
# Which variables can be missing in a session

In a session that evaluates a submission only behind submissions that ran to
their end, every visible variable has a value or can be passed by: its first
place stands in the right operand of a logical operator. No other variable is
ever missing.
-/

namespace Scriptlet

namespace Submission

open Scriptlet.Bound Syntax Rows

/-- The places of a chain of submissions, listed from the newest on. -/
def sites : List Submission → List Site
  | [] => []
  | s :: earlier => sites earlier ++ s.statement.sites

/-- A chain of submissions, each of them compiled behind the others from a text
without any problem and with identities that none of the others has. All
identities are below a bound. -/
inductive Ordered : List Submission → Nat → Prop where
  | nil (bound : Nat) : Ordered [] bound
  | cons {earlier : List Submission} {nextId bound : Nat} (chain : Ordered earlier nextId)
      (text : String) (clean : (compile earlier nextId (.ofText text)).1.diagnostics = [])
      (below : (compile earlier nextId (.ofText text)).2 ≤ bound) :
      Ordered ((compile earlier nextId (.ofText text)).1 :: earlier) bound

variable {s : Submission} {earlier chain : List Submission} {nextId bound bound' steps : Nat}
  {memory after : Memory} {outcome : Outcome}

/-- Bounds may be raised. -/
theorem Ordered.mono (h : Ordered chain bound) (hb : bound ≤ bound') : Ordered chain bound' := by
  cases h with
  | nil => exact .nil bound'
  | cons inner text clean below => exact .cons inner text clean (Nat.le_trans below hb)

/-- No submission of an ordered chain has problems. -/
theorem Ordered.clean (h : Ordered chain bound) : ∀ s ∈ chain, s.diagnostics = [] := by
  induction h with
  | nil => exact fun _ hs => absurd hs List.not_mem_nil
  | cons _ _ clean _ ih => exact List.forall_mem_cons.2 ⟨clean, ih⟩

/-- Chains in order are flawless. -/
theorem Ordered.flawless (h : Ordered chain bound) : Flawless chain := by
  induction h with
  | nil => exact .nil
  | cons _ text clean _ ih => exact .cons ih _ text clean

/-- The identities of the global variables of an ordered chain, and those of the
variables that it gives values, are below the bound. -/
theorem Ordered.idsBelow (h : Ordered chain bound) :
    Rows.Below bound (rows chain) ∧ SitesBelow bound (sites chain) := by
  induction h with
  | nil => exact ⟨fun _ hvars => absurd hvars List.not_mem_nil, sitesBelow_nil⟩
  | @cons earlier nextId _ chain text clean below ih =>
    have follows := follows_ofText chain.flawless.proper clean
    have inside := Frame.below_fresh ih.1
    have grows := follows.elaborates.grows
    have places := (ih.2.mono grows.nextId_le).append (follows.elaborates.sitesBelow inside)
    exact ⟨(grows.below inside).mono below, places.mono below⟩

/-- The newest submission of an ordered chain follows the rules, with identities
above those of the others. -/
theorem Ordered.follows (h : Ordered (s :: earlier) bound) :
    ∃ nextId behind, Ordered earlier nextId ∧ s.Follows earlier nextId behind := by
  cases h with
  | cons chain text clean _ => exact ⟨_, _, chain, follows_ofText chain.flawless.proper clean⟩

/-- Evaluating a submission keeps what outlasts its writes. -/
theorem keeps_evaluate (structured : s.diagnostics = [] → s.statement.Structured)
    {P : Store → Prop} (outlasts : s.diagnostics = [] → Outlasts P s.statement.sites)
    (hp : P memory.store) (run : s.evaluate steps memory = some (outcome, after)) :
    P after.store := by
  by_cases clean : s.diagnostics = []
  · obtain ⟨rounds, result, h, -⟩ :=
      (exists_evaluate_iff_interpret clean (structured clean)).1 ⟨steps, run⟩
    have kept := s.statement.keeps rounds (outlasts clean) .void memory _ hp h
    cases result <;> exact kept
  · rw [evaluate_of_diagnostics clean] at run
    cases run
    exact hp

/-- What is settled stays settled when a submission is evaluated. -/
theorem settled_evaluate (structured : s.diagnostics = [] → s.statement.Structured)
    {places : List Site} {visible : Rows} (settled : Settled places visible memory)
    (run : s.evaluate steps memory = some (outcome, after)) : Settled places visible after := by
  intro vars hvars v hv
  rcases settled vars hvars v hv with hskip | hentry
  · exact .inl hskip
  · exact .inr (keeps_evaluate structured (fun _ => outlasts_has v _) hentry run)

/-- A submission that runs to its end behind a settled chain settles the chain
with itself. If it fails because a variable is missing, that variable can be
passed by. -/
theorem Ordered.settles (h : Ordered (s :: earlier) bound)
    (settled : Settled (sites earlier) (rows earlier) memory)
    (run : s.evaluate steps memory = some (outcome, after)) :
    (∀ value, outcome = .finished value →
      Settled (sites (s :: earlier)) (rows (s :: earlier)) after) ∧
    ∀ name, outcome = .failed (.missingVariable name) →
      ∃ v, v.name = name ∧ after.store.get? v = none ∧ Skippable (sites (s :: earlier)) v := by
  obtain ⟨nextId, behind, chain, follows⟩ := h.follows
  have clean := h.clean s List.mem_cons_self
  have structured := (follows.wellTyped chain.flawless.proper).structured
  obtain ⟨rounds, result, means, rfl⟩ :=
    (exists_evaluate_iff_interpret clean structured).1 ⟨steps, run⟩
  have whole : sites (s :: earlier) = sites earlier ++ (s.statement.sites ++ []) := by
    rw [List.append_nil, sites]
  have before :
      Settled (sites (s :: earlier)) ((Frame.fresh nextId).rows (rows earlier)) memory := by
    refine Settled.fresh (fun vars hvars v hv => ?_) nextId
    exact (settled vars hvars v hv).imp (fun hskip => hskip.append _) id
  have visible := Frame.below_fresh chain.idsBelow.1
  have ends := follows.elaborates.settles whole chain.idsBelow.2 visible rounds .void memory _
    before means
  cases result with
  | ok value =>
    constructor
    · exact fun _ _ => ends
    · intro name hfail
      cases hfail
  | error fault =>
    constructor
    · intro value hfinish
      cases hfinish
    · intro name hfail
      cases hfail
      exact ends name rfl

end Submission

namespace Session

open Scriptlet.Bound Submission

/-- Sessions that begin with an empty store, together with the chains they have
compiled and those of them that ran to their end. A submission may continue any
compiled chain, but it is evaluated only behind submissions that ran to their
end on the store of the session. -/
inductive Orderly : Session → (compiled completed : List (List Submission)) → Prop where
  | start (draws : Draws) : Orderly (.start draws) [] []
  /-- The next submission shall continue another chain. -/
  | rewind {s : Session} {compiled completed : List (List Submission)}
      (before : Orderly s compiled completed) {chain : List Submission}
      (known : chain = [] ∨ chain ∈ compiled) : Orderly (s.rewind chain) compiled completed
  | compile {s : Session} {compiled completed : List (List Submission)}
      (before : Orderly s compiled completed) (text : String) :
      Orderly (s.compile (.ofText text)).2
        (((s.compile (.ofText text)).1 :: s.chain) :: compiled) completed
  | finish {s after : Session} {compiled completed : List (List Submission)}
      (before : Orderly s compiled completed) {submission : Submission} {earlier : List Submission}
      (known : submission :: earlier ∈ compiled) (ready : earlier = [] ∨ earlier ∈ completed)
      {steps : Nat} {inputs : List String} {evaluated : Evaluated}
      (run : s.evaluate steps inputs submission = some (evaluated, after)) {value : Value}
      (finished : evaluated.outcome = .finished value) :
      Orderly after compiled ((submission :: earlier) :: completed)
  /-- A submission that is rejected or fails does not count as completed. -/
  | stop {s after : Session} {compiled completed : List (List Submission)}
      (before : Orderly s compiled completed) {submission : Submission} {earlier : List Submission}
      (known : submission :: earlier ∈ compiled) (ready : earlier = [] ∨ earlier ∈ completed)
      {steps : Nat} {inputs : List String} {evaluated : Evaluated}
      (run : s.evaluate steps inputs submission = some (evaluated, after))
      (stopped : ∀ value, evaluated.outcome ≠ .finished value) : Orderly after compiled completed

/-- What holds in every orderly session: chains without problems are in order
and below the next identity, and what completed chains show is settled. -/
structure Sound (s : Session) (compiled completed : List (List Submission)) : Prop where
  current : s.chain = [] ∨ s.chain ∈ compiled
  ordered : ∀ chain ∈ compiled, (∀ t ∈ chain, t.diagnostics = []) → Ordered chain s.nextId
  clean : ∀ chain ∈ completed, chain ∈ compiled ∧ ∀ t ∈ chain, t.diagnostics = []
  settled : ∀ chain ∈ completed, ∀ memory : Memory, memory.store = s.store →
    Settled (sites chain) (rows chain) memory

variable {s after : Session} {compiled completed : List (List Submission)}
  {submission : Submission} {earlier : List Submission} {steps : Nat} {inputs : List String}
  {evaluated : Evaluated}

namespace Sound

/-- A compiled chain without problems is in order if it is ready. -/
theorem ordered_of_ready (h : Sound s compiled completed) (known : submission :: earlier ∈ compiled)
    (ready : earlier = [] ∨ earlier ∈ completed) (clean : submission.diagnostics = []) :
    Ordered (submission :: earlier) s.nextId := by
  refine h.ordered _ known (List.forall_mem_cons.2 ⟨clean, ?_⟩)
  rcases ready with rfl | ready
  · exact fun _ ht => absurd ht List.not_mem_nil
  · exact (h.clean earlier ready).2

/-- What is visible to a submission that is ready is settled. -/
theorem settled_of_ready (h : Sound s compiled completed)
    (ready : earlier = [] ∨ earlier ∈ completed) {memory : Memory} (same : memory.store = s.store) :
    Settled (sites earlier) (rows earlier) memory := by
  rcases ready with rfl | ready
  · exact fun _ hvars => absurd hvars List.not_mem_nil
  · exact h.settled earlier ready memory same

/-- Compiling keeps a session sound, whatever is wrong with the text. -/
theorem compile (h : Sound s compiled completed) (text : String) :
    Sound (s.compile (.ofText text)).2 (((s.compile (.ofText text)).1 :: s.chain) :: compiled)
      completed := by
  have hle : s.nextId ≤ (Submission.compile s.chain s.nextId (.ofText text)).2 :=
    nextId_le_compile s.chain s.nextId _
  refine ⟨h.current.imp_right (List.mem_cons_of_mem _), ?_, ?_, h.settled⟩
  · intro chain hchain clean
    rcases List.mem_cons.1 hchain with rfl | hchain
    · rw [List.forall_mem_cons] at clean
      have older : Ordered s.chain s.nextId := by
        rcases h.current with hnil | hmem
        · rw [hnil]
          exact .nil _
        · exact h.ordered _ hmem clean.2
      exact .cons older text clean.1 (Nat.le_refl _)
    · exact (h.ordered chain hchain clean).mono hle
  · intro chain hchain
    have before := h.clean chain hchain
    exact ⟨List.mem_cons_of_mem _ before.1, before.2⟩

/-- Evaluating a submission that is ready keeps a session sound, however the
evaluation ends. -/
theorem evaluate (h : Sound s compiled completed) (known : submission :: earlier ∈ compiled)
    (ready : earlier = [] ∨ earlier ∈ completed)
    (run : s.evaluate steps inputs submission = some (evaluated, after)) :
    Sound after compiled completed := by
  obtain ⟨memory, hrun, -, -, rfl⟩ := exists_of_evaluate run
  have structured (clean : submission.diagnostics = []) : submission.statement.Structured :=
    (h.ordered_of_ready known ready clean).flawless.wellTyped.structured
  refine ⟨h.current, h.ordered, h.clean, fun chain hchain behind same => ?_⟩
  have before := h.settled chain hchain (.start s.store inputs s.draws) rfl
  exact (settled_evaluate structured before hrun).of_store same

/-- A submission that runs to its end completes its chain. -/
theorem finish (h : Sound s compiled completed) (known : submission :: earlier ∈ compiled)
    (ready : earlier = [] ∨ earlier ∈ completed)
    (run : s.evaluate steps inputs submission = some (evaluated, after)) {value : Value}
    (finished : evaluated.outcome = .finished value) :
    Sound after compiled ((submission :: earlier) :: completed) := by
  have rest := h.evaluate known ready run
  obtain ⟨memory, hrun, -, -, rfl⟩ := exists_of_evaluate run
  have clean := diagnostics_of_evaluate hrun fun problems => by rw [finished]; exact nofun
  have ordered := h.ordered_of_ready known ready clean
  have before : Settled (sites earlier) (rows earlier) (.start s.store inputs s.draws) :=
    h.settled_of_ready ready rfl
  have behind := (ordered.settles before hrun).1 value finished
  refine ⟨rest.current, rest.ordered, ?_, ?_⟩
  · exact List.forall_mem_cons.2 ⟨⟨known, ordered.clean⟩, rest.clean⟩
  · exact List.forall_mem_cons.2 ⟨fun memory same => behind.of_store same, rest.settled⟩

end Sound

/-- Orderly sessions are sound. -/
theorem Orderly.sound (h : Orderly s compiled completed) : Sound s compiled completed := by
  induction h with
  | start draws =>
    exact ⟨.inl rfl, fun _ h => absurd h List.not_mem_nil, fun _ h => absurd h List.not_mem_nil,
      fun _ h => absurd h List.not_mem_nil⟩
  | rewind _ known ih => exact ⟨known, ih.ordered, ih.clean, ih.settled⟩
  | compile _ text ih => exact ih.compile text
  | finish _ known ready run finished ih => exact ih.finish known ready run finished
  | stop _ known ready run _ ih => exact ih.evaluate known ready run

/-- Only what can be passed by can be missing. If a submission of an orderly
session, evaluated behind submissions that ran to their end, fails because a
variable has no value, then the first place of the chain that gives this
variable a value stands in the right operand of a logical operator. -/
theorem missingVariable_isSkippable (orderly : Orderly s compiled completed)
    (known : submission :: earlier ∈ compiled) (ready : earlier = [] ∨ earlier ∈ completed)
    (run : s.evaluate steps inputs submission = some (evaluated, after)) {name : String}
    (missing : evaluated.outcome = .failed (.missingVariable name)) :
    ∃ v, v.name = name ∧ after.store.get? v = none ∧
      Skippable (sites (submission :: earlier)) v := by
  have sound := orderly.sound
  obtain ⟨memory, hrun, -, -, rfl⟩ := exists_of_evaluate run
  have clean := diagnostics_of_evaluate hrun fun problems => by rw [missing]; exact nofun
  have ordered := sound.ordered_of_ready known ready clean
  exact (ordered.settles (sound.settled_of_ready ready rfl) hrun).2 name missing

/-- A session that has compiled a variable whose declaration is passed by. -/
def skippingSample : Submission × Session :=
  (start (.ofSeed 0)).compile (.ofText "\x7b false && (x = true) x \x7d")

/-- A submission without problems fails because a variable is missing whose
declaration it passes by. -/
theorem missingVariable_isSkippable_skippingSample :
    Orderly skippingSample.2 [[skippingSample.1]] [] ∧ skippingSample.1.diagnostics = [] ∧
      ∃ evaluated after, skippingSample.2.evaluate 2 [] skippingSample.1 = some (evaluated, after) ∧
        evaluated.outcome = .failed (.missingVariable "x") ∧
        ∃ v, v.name = "x" ∧ after.store.get? v = none ∧ Skippable (sites [skippingSample.1]) v := by
  have orderly : Orderly skippingSample.2 [[skippingSample.1]] [] :=
    .compile (.start (.ofSeed 0)) "\x7b false && (x = true) x \x7d"
  have run : skippingSample.2.evaluate 2 [] skippingSample.1 =
      some (⟨.failed (.missingVariable "x"), [], []⟩, skippingSample.2) := rfl
  exact ⟨orderly, rfl, _, _, run, rfl,
    missingVariable_isSkippable orderly List.mem_cons_self (.inl rfl) run rfl⟩

end Session

end Scriptlet
