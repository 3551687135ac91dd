import Scriptlet.Proofs.Declaring.Sessions
import Scriptlet.Proofs.Renaming.Running

/-!
# Sessions up to renaming

Two sessions whose variables differ by a renaming alone, and whose next
identities do, answer everything alike and stay so. A session uses no identity
from its next one on, so it differs by such a renaming from the session that
skips some identities.
-/

namespace Scriptlet

/-- The identities of all variables with a value are below a bound. -/
def Store.Below (bound : Nat) (s : Store) : Prop := ∀ entry ∈ s.entries, entry.1.id < bound

namespace Store

variable {s : Store} {bound : Nat}

theorem below_empty : empty.Below bound := fun _ h => absurd h List.not_mem_nil

theorem Below.mono {bound' : Nat} (h : s.Below bound) (le : bound ≤ bound') : s.Below bound' :=
  fun entry hentry => Nat.lt_of_lt_of_le (h entry hentry) le

/-- A write to a variable below the bound adds no identity above it. -/
theorem Below.insert {v : Variable} (h : s.Below bound) (hv : v.id < bound) (value : Value) :
    (s.insert v value).Below bound := by
  obtain ⟨entries⟩ := s
  intro entry hentry
  simp only [Store.insert] at hentry
  induction entries with
  | nil =>
    rw [insertInto, List.mem_singleton] at hentry
    rw [hentry]
    exact hv
  | cons first rest ih =>
    have others : Below bound ⟨rest⟩ := fun other hother => h other (List.mem_cons_of_mem _ hother)
    rw [insertInto] at hentry
    split at hentry
    · rcases List.mem_cons.1 hentry with rfl | hentry
      · exact hv
      · exact others entry hentry
    · rcases List.mem_cons.1 hentry with rfl | hentry
      · exact h _ List.mem_cons_self
      · exact ih others hentry

/-- A renaming that fixes all identities below the bound fixes the store. -/
theorem Below.rename_eq {f : Nat → Nat} (h : s.Below bound) (fixed : ∀ id < bound, f id = id) :
    s.rename f = s := by
  have same : s.entries.map (fun entry => (entry.1.rename f, entry.2)) = s.entries := by
    rw [List.map_congr_left (g := id), List.map_id]
    intro entry hentry
    have unchanged := Variable.rename_of_fixed (fixed _ (h entry hentry))
    rw [unchanged]
    rfl
  rw [rename, same]

end Store

/-- A bound on the identities of a store outlasts writes below it. -/
theorem Bound.outlasts_below {sites : List Bound.Site} {bound : Nat}
    (h : SitesBelow bound sites) : Outlasts (Store.Below bound) sites :=
  fun site hsite _ value below => below.insert (h site hsite) value

/-- Moves all identities from the first one on by a distance. -/
def shift (first distance id : Nat) : Nat := if id < first then id else id + distance

section Shift

variable (first distance : Nat)

theorem shift_of_lt {id : Nat} (h : id < first) : shift first distance id = id := if_pos h

theorem shift_of_le {id : Nat} (h : first ≤ id) : shift first distance id = id + distance :=
  if_neg (Nat.not_lt.2 h)

theorem shift_injective : (shift first distance).Injective := by
  intro a b same
  simp only [shift] at same
  split at same <;> split at same <;> omega

theorem countsFrom_shift : CountsFrom (shift first distance) first := by
  intro j hj
  rw [shift_of_le first distance hj, shift_of_le first distance (Nat.le_succ_of_le hj)]
  omega

end Shift

namespace Submission

open Rows

/-- A renaming that fixes all identities below a bound fixes the variables of a
chain below it. -/
theorem globals_rename_eq {f : Nat → Nat} {chain : List Submission} {bound : Nat}
    (below : Rows.Below bound (rows chain)) (fixed : ∀ id < bound, f id = id) :
    chain.map globals = chain.map fun s => s.globals.map (·.rename f) := by
  refine List.map_congr_left fun s hs => ?_
  rw [List.map_congr_left (g := id), List.map_id]
  intro v hv
  exact Variable.rename_of_fixed (fixed _ (below s.globals (List.mem_map_of_mem hs) v hv))

/-- What is wrong with a submission does not depend on how many identities are
used up. -/
theorem compile_diagnostics_eq {chain : List Submission} {nextId nextId' : Nat}
    (below : Rows.Below nextId (rows chain)) (le : nextId ≤ nextId') (source : Syntax.Source) :
    (compile chain nextId' source).1.diagnostics = (compile chain nextId source).1.diagnostics := by
  have counts := countsFrom_shift nextId (nextId' - nextId)
  have same := globals_rename_eq below fun id hid => shift_of_lt nextId (nextId' - nextId) hid
  have moved : shift nextId (nextId' - nextId) nextId = nextId' := by
    rw [shift_of_le nextId _ (Nat.le_refl _)]
    omega
  have compiled := (compile_rename same counts source).1
  rw [moved] at compiled
  rw [compiled]
  rfl

end Submission

namespace Session

open Scriptlet.Bound Submission

variable {f : Nat → Nat} {s s' after : Session} {submission : Submission} {evaluated : Evaluated}
  {steps : Nat} {inputs : List String}

/-- What submitting gives is read off the memory that the evaluation leaves. -/
theorem exists_of_submit {source : Syntax.Source}
    (run : s.submit steps inputs source = some (submission, evaluated, after)) :
    submission = (s.compile source).1 ∧ ∃ memory,
      submission.evaluate steps (.start s.store inputs s.draws) =
        some (evaluated.outcome, memory) ∧
      after = ((s.compile source).2.behind memory).extend submission evaluated.outcome := by
  rw [submit_eq, Option.map_eq_some_iff] at run
  obtain ⟨⟨outcome, memory⟩, hrun, h⟩ := run
  cases h
  exact ⟨rfl, memory, hrun, rfl⟩

/-- A submission with problems changes nothing but the next identity. -/
theorem submit_of_diagnostics {source : Syntax.Source}
    (problems : (s.compile source).1.diagnostics ≠ []) :
    s.submit steps inputs source =
      some ((s.compile source).1, ⟨.rejected (s.compile source).1.diagnostics, [], inputs⟩,
        (s.compile source).2) := by
  rw [submit_eq, evaluate_of_diagnostics problems]
  rfl

/-- The chain is in order, and no identity from the next one on is in use. -/
structure Fresh (s : Session) : Prop where
  ordered : Ordered s.chain s.nextId
  below : s.store.Below s.nextId

theorem fresh_start (draws : Draws) : (start draws).Fresh := ⟨.nil 0, Store.below_empty⟩

/-- A session that forgets everything keeps counting. -/
theorem fresh_reset (s : Session) : s.reset.Fresh := ⟨.nil s.nextId, Store.below_empty⟩

/-- Submitting a text uses identities up, and no others. -/
theorem Fresh.submit {text : String} (h : s.Fresh)
    (run : s.submit steps inputs (.ofText text) = some (submission, evaluated, after)) :
    after.Fresh := by
  obtain ⟨rfl, memory, hrun, rfl⟩ := exists_of_submit run
  have grows : s.nextId ≤ (s.compile (.ofText text)).2.nextId :=
    nextId_le_compile s.chain s.nextId (.ofText text)
  have chain : Ordered s.chain (s.compile (.ofText text)).2.nextId := h.ordered.mono grows
  have extended (clean : (s.compile (.ofText text)).1.diagnostics = []) :
      Ordered ((s.compile (.ofText text)).1 :: s.chain) (s.compile (.ofText text)).2.nextId :=
    .cons h.ordered text clean (Nat.le_refl _)
  have store : memory.store.Below (s.compile (.ofText text)).2.nextId := by
    refine keeps_evaluate (fun clean => (extended clean).flawless.wellTyped.structured)
      (fun clean => outlasts_below fun site hsite => ?_) (h.below.mono grows) hrun
    exact (extended clean).idsBelow.2 site (List.mem_append_right _ hsite)
  cases houtcome : evaluated.outcome with
  | rejected problems => exact ⟨chain, store⟩
  | failed fault => exact ⟨chain, store⟩
  | finished value =>
    have clean := diagnostics_of_evaluate hrun fun problems => by rw [houtcome]; exact nofun
    exact ⟨extended clean, store⟩

/-- The second session has the renamed variables of the first one, and the
renaming counts on from the next identity. -/
structure Renames (f : Nat → Nat) (s s' : Session) : Prop where
  counts : CountsFrom f s.nextId
  nextId : s'.nextId = f s.nextId
  globals : s'.chain.map Submission.globals = s.chain.map fun t => t.globals.map (·.rename f)
  store : s'.store = s.store.rename f
  draws : s'.draws = s.draws

/-- A session that skips identities has the renamed variables of the session
itself. -/
theorem Fresh.renames_shift (h : s.Fresh) (distance : Nat) :
    Renames (shift s.nextId distance) s { s with nextId := s.nextId + distance } := by
  have fixed : ∀ id < s.nextId, shift s.nextId distance id = id :=
    fun id hid => shift_of_lt s.nextId distance hid
  exact ⟨countsFrom_shift s.nextId distance, (shift_of_le s.nextId distance (Nat.le_refl _)).symm,
    globals_rename_eq h.ordered.idsBelow.1 fixed, (h.below.rename_eq fixed).symm, rfl⟩

theorem Renames.reset (h : Renames f s s') : Renames f s.reset s'.reset :=
  ⟨h.counts, h.nextId, rfl, rfl, h.draws⟩

/-- Chains are extended alike by a submission and the renamed one. -/
theorem Renames.extend (h : Renames f s s') (submission : Submission) (outcome : Outcome) :
    Renames f (s.extend submission outcome) (s'.extend (submission.rename f) outcome) := by
  cases outcome with
  | rejected problems => exact h
  | failed fault => exact h
  | finished value =>
    exact ⟨h.counts, h.nextId, congrArg (_ :: ·) h.globals, h.store, h.draws⟩

/-- Sessions that differ by a renaming answer a submission alike, and differ by
it afterwards. -/
theorem Renames.submit (h : Renames f s s') (injective : f.Injective) (steps : Nat)
    (inputs : List String) (source : Syntax.Source) :
    Option.Rel (fun given given' => given'.1 = given.1.rename f ∧ given'.2.1 = given.2.1 ∧
      Renames f given.2.2 given'.2.2) (s.submit steps inputs source)
      (s'.submit steps inputs source) := by
  have compiles := compile_rename h.globals h.counts source
  rw [← h.nextId] at compiles
  have compiled : (s'.compile source).1 = (s.compile source).1.rename f :=
    congrArg Prod.fst compiles.1
  have memory : Memory.start s'.store inputs s'.draws =
      (Memory.start s.store inputs s.draws).rename f := by
    rw [h.store, h.draws]
    rfl
  rw [submit_eq, submit_eq, compiled, memory, Submission.evaluate_rename injective]
  cases (s.compile source).1.evaluate steps (.start s.store inputs s.draws) with
  | none => exact .none
  | some ending =>
    obtain ⟨outcome, left⟩ := ending
    have behind : Renames f ((s.compile source).2.behind left)
        ((s'.compile source).2.behind (left.rename f)) :=
      ⟨compiles.2, congrArg Prod.snd compiles.1, h.globals, rfl, rfl⟩
    exact .some ⟨rfl, rfl, behind.extend _ outcome⟩

end Session

end Scriptlet
