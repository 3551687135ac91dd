import Scriptlet.Proofs.Lowering.Structured

/-!
# What evaluations ensure

An evaluation ensures something if, started on a memory of one kind, it ends
with a value and a memory of another kind, or with a fault that is allowed. Such
statements are put together as evaluations are, and as the meanings of
structured statements are, where a loop ensures what its rounds keep.
-/

namespace Scriptlet

namespace Evaluating

/-- On every memory that satisfies the first condition, an evaluation ends with a
value that satisfies the second condition or with a fault that satisfies the
third, both together with the memory left. -/
def Ensures {α : Type} (before : Memory → Prop) (m : Evaluating α) (after : α → Memory → Prop)
    (failing : Fault → Memory → Prop) : Prop :=
  ∀ memory, before memory →
    match m.on memory with
    | (.ok a, behind) => after a behind
    | (.error fault, behind) => failing fault behind

variable {α β : Type} {before : Memory → Prop} {m : Evaluating α} {f : α → Evaluating β}
  {after after' : α → Memory → Prop} {after'' : β → Memory → Prop}
  {failing failing' : Fault → Memory → Prop} {memory behind : Memory}

/-- The value that an evaluation gives satisfies what it ensures. -/
theorem Ensures.of_ok {a : α} (h : Ensures before m after failing) (hb : before memory)
    (hm : m.on memory = (.ok a, behind)) : after a behind := by
  have ends := h memory hb
  rwa [hm] at ends

/-- The fault that an evaluation stops with satisfies what it ensures. -/
theorem Ensures.of_error {fault : Fault} (h : Ensures before m after failing)
    (hb : before memory) (hm : m.on memory = (.error fault, behind)) : failing fault behind := by
  have ends := h memory hb
  rwa [hm] at ends

/-- A bare result ensures what holds already. -/
theorem ensures_pure {a : α} (h : ∀ memory, before memory → after a memory) :
    Ensures before (pure a) after failing := h

/-- A result that is taken over ensures what holds for it. -/
theorem ensures_lift {result : Except Fault α}
    (h : ∀ memory, before memory →
      match result with
      | .ok a => after a memory
      | .error fault => failing fault memory) : Ensures before (lift result) after failing := by
  intro memory hb
  have ends := h memory hb
  cases result <;> exact ends

/-- A sequence ensures what its second part ensures behind its first part. -/
theorem Ensures.bind (h : Ensures before m after failing)
    (h' : ∀ a, Ensures (after a) (f a) after'' failing) :
    Ensures before (m >>= f) after'' failing := by
  intro memory hb
  rw [on_bind]
  rcases hm : m.on memory with ⟨fault | a, behind⟩
  · exact h.of_error hb hm
  · exact h' a behind (h.of_ok hb hm)

/-- What is ensured may be weakened, and more may be required. -/
theorem Ensures.weaken {before' : Memory → Prop} (h : Ensures before m after failing)
    (hb : ∀ memory, before' memory → before memory)
    (ha : ∀ a memory, after a memory → after' a memory)
    (hf : ∀ fault memory, failing fault memory → failing' fault memory) :
    Ensures before' m after' failing' := by
  intro memory hm
  rcases hr : m.on memory with ⟨fault | a, behind⟩
  · exact hf fault behind (h.of_error (hb memory hm) hr)
  · exact ha a behind (h.of_ok (hb memory hm) hr)

/-- Two things that an evaluation ensures are ensured together. -/
theorem Ensures.and {before' : Memory → Prop} (h : Ensures before m after failing)
    (h' : Ensures before' m after' failing') :
    Ensures (fun memory => before memory ∧ before' memory) m
      (fun a memory => after a memory ∧ after' a memory)
      (fun fault memory => failing fault memory ∧ failing' fault memory) := by
  intro memory hb
  rcases hm : m.on memory with ⟨fault | a, behind⟩
  · exact ⟨h.of_error hb.1 hm, h'.of_error hb.2 hm⟩
  · exact ⟨h.of_ok hb.1 hm, h'.of_ok hb.2 hm⟩

/-- A condition that does not depend on the memory may be assumed. -/
theorem ensures_of_and {p : Prop} (h : p → Ensures before m after failing) :
    Ensures (fun memory => p ∧ before memory) m after failing :=
  fun memory hb => h hb.1 memory hb.2

/-- A variable has its value behind a write, and the others keep theirs. -/
theorem ensures_write {v : Variable} {value : Value} {after : Unit → Memory → Prop}
    (h : ∀ memory, before memory →
      after () { memory with store := memory.store.insert v value }) :
    Ensures before (write v value) after failing := h

/-- A read gives the value of the variable or fails because it has none. -/
theorem ensures_read {v : Variable} {after : Value → Memory → Prop}
    (hvalue : ∀ memory value, before memory → memory.store.get? v = some value →
      after value memory)
    (hmissing : ∀ memory, before memory → memory.store.get? v = none →
      failing (.missingVariable v.name) memory) :
    Ensures before (read v) after failing := by
  intro memory hb
  cases hv : memory.store.get? v with
  | none =>
    have missing : (read v).on memory = (.error (.missingVariable v.name), memory) := by
      simp only [read, on_bind, on_memory, hv, on_fail]
    rw [missing]
    exact hmissing memory hb hv
  | some value =>
    have found : (read v).on memory = (.ok value, memory) := by
      simp only [read, on_bind, on_memory, hv, on_pure]
    rw [found]
    exact hvalue memory value hb hv

/-- A draw gives an integer and leaves all but the draws as it is. -/
theorem exists_on_random (bound : Int32) (memory : Memory) :
    ∃ drawn draws, (random bound).on memory = (.ok drawn, { memory with draws }) := by
  by_cases hbound : bound ≤ 0
  · exact ⟨0, memory.draws, by rw [random, if_pos hbound, on_pure]⟩
  · refine ⟨Int32.ofNat (memory.draws.below bound.toInt.toNat).1,
      (memory.draws.below bound.toInt.toNat).2, ?_⟩
    rw [random, if_neg hbound]
    rfl

/-- A call leaves the store as it is, and no variable is missing for it. -/
theorem ensures_call (f : Function) (arguments : List Value) (store : Store) :
    Ensures (fun memory => memory.store = store) (call f arguments)
      (fun _ memory => memory.store = store)
      (fun fault memory => memory.store = store ∧ ∀ name, fault ≠ .missingVariable name) := by
  have refused (fault : Fault) (h : ∀ name, fault ≠ .missingVariable name) :
      Ensures (fun memory => memory.store = store) (fail fault : Evaluating Value)
        (fun _ memory => memory.store = store)
        (fun fault memory => memory.store = store ∧ ∀ name, fault ≠ .missingVariable name) :=
    fun memory hstore => ⟨hstore, h⟩
  unfold call
  split
  · split
    · exact fun memory hstore => hstore
    · exact refused _ fun name => by simp
  · split
    · exact fun memory hstore => hstore
    · split
      · split
        · intro memory hstore
          obtain ⟨drawn, draws, hdrawn⟩ := exists_on_random _ memory
          rw [on_bind_of_ok hdrawn]
          exact hstore
        · exact refused _ fun name => by simp
      · exact refused _ fun name => by simp

/-- A call of a function of the language with arguments of the types of its
parameters gives a value of the type of the call. -/
theorem exists_on_call {f : Function} {arguments : List Value} (known : f ∈ Function.builtins)
    (fit : arguments.map Value.type = f.parameters.map Parameter.type) (memory : Memory) :
    ∃ value behind, (call f arguments).on memory = (.ok value, behind) ∧
      value.type = f.returns := by
  simp only [Function.builtins, List.mem_cons, List.not_mem_nil, or_false] at known
  rcases known with rfl | rfl | rfl
  · obtain ⟨argument, rfl, htype⟩ := List.map_eq_singleton_iff.1 fit
    obtain ⟨text, rfl⟩ := Value.type_eq_string_iff.1 htype
    exact ⟨_, _, rfl, rfl⟩
  · exact ⟨_, _, rfl, rfl⟩
  · obtain ⟨argument, rfl, htype⟩ := List.map_eq_singleton_iff.1 fit
    obtain ⟨bound, rfl⟩ := Value.type_eq_int_iff.1 htype
    obtain ⟨drawn, draws, hdrawn⟩ := exists_on_random bound memory
    exact ⟨.int drawn, _, on_bind_of_ok hdrawn _, rfl⟩

end Evaluating

namespace Meaning

open Evaluating

/-- On every memory that satisfies the first condition, whatever end a meaning
comes to satisfies the second condition, or the third if it is a fault. -/
def Ensures (before : Memory → Prop) (m : Meaning) (after : Memory → Prop)
    (failing : Fault → Memory → Prop) : Prop :=
  ∀ last memory ending, before memory → m last memory = some ending →
    match ending with
    | (.ok _, behind) => after behind
    | (.error fault, behind) => failing fault behind

variable {before before' between after after' : Memory → Prop} {first second yes no : Meaning}
  {failing failing' : Fault → Memory → Prop} {test : Evaluating Bool}

/-- Doing nothing ensures what holds already. -/
theorem ensures_skip (h : ∀ memory, before memory → after memory) :
    Ensures before skip after failing := by
  intro last memory ending hb he
  cases he
  exact h memory hb

/-- A meaning without an end ensures anything. -/
theorem ensures_endless : Ensures before endless after failing := by
  intro last memory ending _ he
  cases he

/-- An evaluation ensures as a meaning what it ensures by itself. -/
theorem ensures_ofEvaluating {m : Evaluating Value}
    (h : m.Ensures before (fun _ => after) failing) :
    Ensures before (ofEvaluating m) after failing := by
  intro last memory ending hb he
  cases he
  rcases hm : m.on memory with ⟨fault | value, behind⟩
  · exact h.of_error hb hm
  · exact h.of_ok hb hm

/-- What is ensured may be weakened, and more may be required. -/
theorem Ensures.weaken {m : Meaning} (h : Ensures before m after failing)
    (hb : ∀ memory, before' memory → before memory) (ha : ∀ memory, after memory → after' memory)
    (hf : ∀ fault memory, failing fault memory → failing' fault memory) :
    Ensures before' m after' failing' := by
  intro last memory ending hm he
  have ends := h last memory ending (hb memory hm) he
  rcases ending with ⟨fault | value, behind⟩
  · exact hf fault behind ends
  · exact ha behind ends

/-- Two things that a meaning ensures are ensured together. -/
theorem Ensures.and {m : Meaning}
    (h : Ensures before m after failing) (h' : Ensures before' m after' failing') :
    Ensures (fun memory => before memory ∧ before' memory) m
      (fun memory => after memory ∧ after' memory)
      (fun fault memory => failing fault memory ∧ failing' fault memory) := by
  intro last memory ending hb he
  have ends := h last memory ending hb.1 he
  have ends' := h' last memory ending hb.2 he
  rcases ending with ⟨fault | value, behind⟩
  · exact ⟨ends, ends'⟩
  · exact ⟨ends, ends'⟩

/-- A sequence ensures what its second part ensures behind its first part. -/
theorem Ensures.andThen (h : Ensures before first between failing)
    (h' : Ensures between second after failing) :
    Ensures before (first.andThen second) after failing := by
  intro last memory ending hb he
  rcases hfirst : first last memory with _ | ⟨fault | value, behind⟩
  · rw [andThen_of_none hfirst] at he
    cases he
  · rw [andThen_of_error hfirst] at he
    cases he
    exact h last memory _ hb hfirst
  · rw [andThen_of_ok hfirst] at he
    exact h' value behind ending (h last memory _ hb hfirst) he

/-- A branch ensures what both of its sides ensure behind the test. -/
theorem ensures_branch (htest : test.Ensures before (fun _ => between) failing)
    (hyes : Ensures between yes after failing) (hno : Ensures between no after failing) :
    Ensures before (branch test yes no) after failing := by
  intro last memory ending hb he
  rcases ht : test.on memory with ⟨fault | (_ | _), behind⟩
  · rw [branch_of_error ht] at he
    cases he
    exact htest.of_error hb ht
  · rw [branch_of_false ht] at he
    exact hno last behind ending (htest.of_ok hb ht) he
  · rw [branch_of_true ht] at he
    exact hyes last behind ending (htest.of_ok hb ht) he

/-- A loop ensures what its test ensures, if a round leads from there back to
what the test requires. -/
theorem ensures_loop {body : Meaning} (htest : test.Ensures before (fun _ => after) failing)
    (hbody : Ensures after body before failing) (rounds : Nat) :
    Ensures before (loop test body rounds) after failing := by
  induction rounds with
  | zero => intro last memory ending hb he; cases he
  | succ rounds ih => exact ensures_branch htest (hbody.andThen ih) (ensures_skip fun _ h => h)

end Meaning

end Scriptlet
