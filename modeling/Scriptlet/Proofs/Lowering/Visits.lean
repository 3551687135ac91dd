import Scriptlet.Proofs.Evaluation.Runs
import Scriptlet.Proofs.Lowering.Flattening

/-!
# Where a run passes by

A run can be asked for the memories with which it comes to an index. Jumps of
self-contained code stay in the code and never lead to its first statement, for
they go behind labels. So a run that goes through such code comes to its
beginning once, and it does not depend on what stands behind the code.
-/

namespace Scriptlet

namespace Machine

/-- The memories with which a run of a number of steps comes to an index, in their
order. -/
def visits (p : Program) (index : Nat) : (steps : Nat) → Machine → List Memory
  | 0, _ => []
  | steps + 1, m =>
    (if m.index = index then [m.memory] else []) ++
      match m.step p with
      | .running next => visits p index steps next
      | .halted _ _ => []

variable {p : Program} {m m' : Machine} {index steps : Nat} {result : Except Fault Value}
  {memory : Memory}

/-- A step that goes on leads to all later visits. -/
theorem visits_succ_of_running (h : m.step p = .running m') (index steps : Nat) :
    visits p index (steps + 1) m =
      (if m.index = index then [m.memory] else []) ++ visits p index steps m' := by
  rw [visits, h]

/-- A step elsewhere adds no visit. -/
theorem visits_pass (h : m.step p = .running m') (elsewhere : m.index ≠ index) (steps : Nat) :
    visits p index (steps + 1) m = visits p index steps m' := by
  rw [visits_succ_of_running h, if_neg elsewhere, List.nil_append]

/-- The end of a run elsewhere is no visit. -/
theorem visits_of_halted (h : m.step p = .halted result memory) (elsewhere : m.index ≠ index)
    (steps : Nat) : visits p index steps m = [] := by
  cases steps with
  | zero => rfl
  | succ steps => rw [visits, h, if_neg elsewhere, List.nil_append]

/-- The visits of a run that goes on are those before and those behind a machine
that it comes to. -/
theorem visits_add_of_running (h : m.advance p steps = .running m') (index more : Nat) :
    visits p index (steps + more) m = visits p index steps m ++ visits p index more m' := by
  induction steps generalizing m with
  | zero =>
    cases h
    rw [Nat.zero_add, visits, List.nil_append]
  | succ steps ih =>
    rw [Nat.succ_add]
    rw [advance] at h
    cases hs : m.step p with
    | running next =>
      rw [hs] at h
      rw [visits_succ_of_running hs, visits_succ_of_running hs, ih h, List.append_assoc]
    | halted r after => simp only [hs, reduceCtorEq] at h

end Machine

namespace Program

open Scriptlet.Bound Evaluating Machine

variable {p q code front rest : Program} {i k n : Nat} {target : Label} {m m' : Machine}
  {s : Stmt}

/-- A jump to a label of a piece of a program goes behind its place there. -/
theorem goto_of_holds (hp : p.labels.Nodup) (h : p.Holds i code)
    (hk : code[k]? = some (.label target)) : goto p target = .ok (i + k + 1) := by
  obtain ⟨inside, -⟩ := List.getElem?_eq_some_iff.1 hk
  exact goto_of_nodup hp ((h k inside).trans hk)

/-- Where the jumps of two programs go alike, a statement does the same in both. -/
theorem execute_congr (h : ∀ target, s.jump? = some target → goto p target = goto q target)
    (index : Nat) (last : Value) : execute p index last s = execute q index last s := by
  cases s with
  | goto target | gotoIf target => rw [execute, execute, h target rfl]
  | block | declaration | expression | ifThen | ifElse | whileLoop | forLoop | label => rfl

/-- A statement that is done goes on behind itself, or where its jump goes. -/
theorem index_of_execute {index next : Nat} {last value : Value} {memory after : Memory}
    (h : (execute p index last s).on memory = (.ok (next, value), after)) :
    next = index + 1 ∨ ∃ target, s.jump? = some target ∧ goto p target = .ok next := by
  cases s with
  | declaration target initializer =>
    obtain ⟨_, _, -, h⟩ := exists_of_on_bind h
    obtain ⟨_, _, -, h⟩ := exists_of_on_bind h
    cases h
    exact .inl rfl
  | expression inner =>
    obtain ⟨_, _, -, h⟩ := exists_of_on_bind h
    cases h
    exact .inl rfl
  | goto target =>
    obtain ⟨_, _, jumps, h⟩ := exists_of_on_bind h
    cases h
    exact .inr ⟨target, rfl, congrArg Prod.fst jumps⟩
  | gotoIf target condition expected =>
    obtain ⟨_, _, -, h⟩ := exists_of_on_bind h
    obtain ⟨outcome, _, -, h⟩ := exists_of_on_bind h
    split at h
    · obtain ⟨_, _, jumps, h⟩ := exists_of_on_bind h
      cases h
      exact .inr ⟨target, rfl, congrArg Prod.fst jumps⟩
    · cases h
      exact .inl rfl
  | label =>
    cases h
    exact .inl rfl
  | block | ifThen | ifElse | whileLoop | forLoop => cases h

section Confined

variable (hp : (front ++ code ++ rest).labels.Nodup) (hc : code.SelfContained)

include hp hc

/-- A step inside self-contained code does not depend on what stands behind the
code, and leads to an index in it or to its end. -/
theorem step_of_selfContained (first : front.length ≤ m.index)
    (h : m.step (front ++ code) = .running m') :
    m.step (front ++ code ++ rest) = .running m' ∧ front.length < m'.index := by
  have labels : (front ++ code).labels.Nodup := by
    rw [labels_append] at hp
    exact (List.nodup_append.1 hp).1
  have whole := holds_self (front ++ code ++ rest)
  rw [holds_append_iff, holds_append_iff, Nat.zero_add] at whole
  have part := holds_self (front ++ code)
  rw [holds_append_iff, Nat.zero_add] at part
  cases hs : (front ++ code)[m.index]? with
  | none => simp [step, hs] at h
  | some s =>
    have fetched : (front ++ code ++ rest)[m.index]? = some s := by
      rw [List.getElem?_append_left (List.getElem?_eq_some_iff.1 hs).1, hs]
    have inside : s ∈ code := by
      rw [List.getElem?_append_right first] at hs
      exact List.mem_of_getElem? hs
    -- A jump of the code finds its label in the code, in both programs.
    have jumps : ∀ target, s.jump? = some target → ∃ k,
        goto (front ++ code) target = .ok (front.length + k + 1) ∧
        goto (front ++ code ++ rest) target = .ok (front.length + k + 1) := by
      intro target ht
      obtain ⟨k, hk⟩ := List.getElem?_of_mem ((hc s inside).2 target ht)
      exact ⟨k, goto_of_holds labels part.2 hk, goto_of_holds hp whole.1.2 hk⟩
    have same : execute (front ++ code ++ rest) m.index m.last s =
        execute (front ++ code) m.index m.last s := by
      refine execute_congr (fun target ht => ?_) m.index m.last
      obtain ⟨k, hgoto, hgoto'⟩ := jumps target ht
      rw [hgoto, hgoto']
    simp only [step, fetched, hs, same] at h ⊢
    refine ⟨h, ?_⟩
    rcases hm : (execute (front ++ code) m.index m.last s).on m.memory with
      ⟨fault | ⟨next, last⟩, after⟩
    · simp only [hm, reduceCtorEq] at h
    · simp only [hm, Progress.running.injEq] at h
      subst h
      rcases index_of_execute hm with behind | ⟨target, ht, hgoto⟩
      · show front.length < next
        omega
      · obtain ⟨k, hk, -⟩ := jumps target ht
        rw [hk] at hgoto
        cases hgoto
        show front.length < front.length + k + 1
        omega

/-- A run inside self-contained code does not depend on what stands behind the
code, and does not come back to its beginning. -/
theorem advance_of_selfContained (first : front.length ≤ m.index)
    (h : m.advance (front ++ code) n = .running m') :
    m.advance (front ++ code ++ rest) n = .running m' ∧
      (front.length < m.index → visits (front ++ code ++ rest) front.length n m = []) := by
  induction n generalizing m with
  | zero => exact ⟨h, fun _ => rfl⟩
  | succ n ih =>
    rw [advance] at h
    cases hs : m.step (front ++ code) with
    | halted result after => simp only [hs, reduceCtorEq] at h
    | running next =>
      rw [hs] at h
      obtain ⟨step, later⟩ := step_of_selfContained hp hc first hs
      obtain ⟨run, elsewhere⟩ := ih (Nat.le_of_lt later) h
      refine ⟨by rw [advance, step]; exact run, fun behind => ?_⟩
      rw [visits_pass step (Nat.ne_of_gt behind), elsewhere later]

/-- A run that goes through self-contained code from its beginning comes there
once. -/
theorem visits_of_selfContained (first : m.index = front.length)
    (h : m.advance (front ++ code) n = .running m') (moved : m'.index ≠ front.length) :
    m.advance (front ++ code ++ rest) n = .running m' ∧
      visits (front ++ code ++ rest) front.length n m = [m.memory] := by
  cases n with
  | zero =>
    cases h
    exact absurd first moved
  | succ n =>
    refine ⟨(advance_of_selfContained hp hc (Nat.le_of_eq first.symm) h).1, ?_⟩
    rw [advance] at h
    cases hs : m.step (front ++ code) with
    | halted result after => simp only [hs, reduceCtorEq] at h
    | running next =>
      rw [hs] at h
      obtain ⟨step, later⟩ := step_of_selfContained hp hc (Nat.le_of_eq first.symm) hs
      have elsewhere := (advance_of_selfContained hp hc (Nat.le_of_lt later) h).2 later
      rw [visits_succ_of_running step, elsewhere, if_pos first]
      rfl

end Confined

end Program

end Scriptlet
