import Scriptlet.Proofs.Cutting.Earlier
import Scriptlet.Proofs.Lowering.Simulation
import Scriptlet.Proofs.Lowering.Visits

/-!
# Counting loops count

The flat program of a counting loop tests the bound behind the code of its body.
If the body leaves the variable alone and always comes to an end, and the upper
bound is not the largest integer, the variable takes every value from the lower
to the upper bound once, and stops one above.
-/

namespace Scriptlet

namespace Memory

/-- The memory in which a variable was given a value. -/
def give (memory : Memory) (v : Variable) (value : Value) : Memory :=
  { memory with store := memory.store.insert v value }

/-- The integer that a variable has as its value. -/
def counter? (memory : Memory) (v : Variable) : Option Int :=
  match memory.store.get? v with
  | some (.int k) => some k.toInt
  | _ => none

theorem get?_give_self (memory : Memory) (v : Variable) (value : Value) :
    (memory.give v value).store.get? v = some value := Store.get?_insert_self ..

theorem counter?_of_get? {memory : Memory} {v : Variable} {k : Int32}
    (h : memory.store.get? v = some (.int k)) : memory.counter? v = some k.toInt := by
  rw [counter?, h]

end Memory

/-- A variable that has a value is read. -/
theorem Evaluating.on_read {memory : Memory} {v : Variable} {value : Value}
    (h : memory.store.get? v = some value) :
    (Evaluating.read v).on memory = (.ok value, memory) := by
  simp only [Evaluating.read, on_bind, on_memory, h, on_pure]

/-- An integer below another that is not the largest one grows by one without
wrapping around. -/
theorem toInt_add_one {k bound : Int32} (h : k ≤ bound) (room : bound.toInt < 2147483647) :
    (k + 1).toInt = k.toInt + 1 := by
  have least := Int32.le_toInt k
  rw [Int32.le_iff_toInt_le] at h
  rw [Int32.toInt_add, show (1 : Int32).toInt = 1 from rfl]
  exact Int.bmod_eq_of_le (by omega) (by omega)

namespace Bound.Stmt

open Evaluating Machine Meaning Program

/-- Rounds of a counting loop from a memory on: the body runs by itself from the
memory at the start of each round, and what it leaves is, with the variable one
higher, the memory at the start of the next one. -/
inductive Rounds (v : Variable) (body : Stmt) : Memory → List Memory → Memory → Prop where
  | done (memory : Memory) : Rounds v body memory [] memory
  | round {memory behind after : Memory} {starts : List Memory} {steps : Nat} {value : Value}
      {k : Int32} (counted : memory.store.get? v = some (.int k))
      (ran : body.lower.run steps memory = .halted (.ok value) behind)
      (others : Rounds v body (behind.give v (.int (k + 1))) starts after) :
      Rounds v body memory (memory :: starts) after

variable {v : Variable} {lower upper : Expr} {body : Stmt} {fresh : Nat → Label}

/-- The code in front of the rounds of a counting loop. -/
def entryCode (fresh : Nat → Label) (v : Variable) (lower : Expr) : Program :=
  [declaration v lower, goto (fresh 1), label (fresh 2)]

/-- The code of a round of a counting loop, up to the test. -/
def roundCode (fresh : Nat → Label) (v : Variable) (body : Stmt) : Program :=
  body.code fresh 3 ++ [countingStep v, label (fresh 1)]

/-- The code behind a round of a counting loop. -/
def exitCode (fresh : Nat → Label) (v : Variable) (upper : Expr) : Program :=
  [gotoIf (fresh 2) (countingCondition v upper) true, label (fresh 3)]

/-- The code of a counting loop. -/
def countingCode (fresh : Nat → Label) (v : Variable) (lower upper : Expr) (body : Stmt) :
    Program :=
  entryCode fresh v lower ++ roundCode fresh v body ++ exitCode fresh v upper

theorem lower_forLoop (v : Variable) (lower upper : Expr) (body : Stmt) :
    (forLoop v lower upper body).lower =
      countingCode (freshLabel body.labelBound) v lower upper body := by
  simp [Stmt.lower, code, loopCode, labelBound, countingCode, entryCode, roundCode, exitCode]

/-- The code of a round is self-contained. -/
theorem selfContained_roundCode (hs : body.Structured) (fresh : Nat → Label) (v : Variable) :
    (roundCode fresh v body).SelfContained := by
  refine (selfContained_code hs fresh 3).append fun s hs => ?_
  simp only [List.mem_cons, List.not_mem_nil, or_false] at hs
  rcases hs with rfl | rfl
  · exact ⟨rfl, by simp [countingStep, jump?]⟩
  · exact ⟨rfl, by simp [jump?]⟩

/-- Index of the test in the code of a counting loop. -/
def testIndex (fresh : Nat → Label) (v : Variable) (body : Stmt) : Nat :=
  3 + (roundCode fresh v body).length

theorem lt_testIndex (fresh : Nat → Label) (v : Variable) (body : Stmt) :
    3 < testIndex fresh v body := by
  simp only [testIndex, roundCode, List.length_append, List.length_cons]
  omega

/-- The pieces of the code of a counting loop and where they stand. -/
theorem holds_countingCode (fresh : Nat → Label) (v : Variable) (lower upper : Expr)
    (body : Stmt) :
    (countingCode fresh v lower upper body).Holds 0 (entryCode fresh v lower) ∧
    (countingCode fresh v lower upper body).Holds 3 (roundCode fresh v body) ∧
    (countingCode fresh v lower upper body).Holds (testIndex fresh v body)
      (exitCode fresh v upper) := by
  have whole := holds_self (countingCode fresh v lower upper body)
  rw [countingCode, holds_append_iff, holds_append_iff, Nat.zero_add, Nat.zero_add,
    List.length_append] at whole
  exact ⟨whole.1.1, whole.1.2, whole.2⟩

/-- The test of a counting loop compares the value of its variable. -/
theorem on_counts {k bound : Int32} {memory : Memory}
    (counted : memory.store.get? v = some (.int k)) :
    (counts v (.literal (.int bound))).on memory = (.ok (decide (k ≤ bound)), memory) := by
  rw [counts, on_bind_of_ok (on_read counted)]
  rfl

/-- The step of a counting loop makes its variable one higher. -/
theorem on_increment {k : Int32} {memory : Memory}
    (counted : memory.store.get? v = some (.int k)) :
    (increment v).on memory = (.ok (.int (k + 1)), memory.give v (.int (k + 1))) := by
  rw [increment, on_bind_of_ok (on_read counted)]
  rfl

section Round

variable {memory behind : Memory} {steps : Nat} {value : Value} {k : Int32}

/-- A body that runs to its end by itself means the same behind any last value. -/
theorem exists_interpret_of_run (hs : body.Structured)
    (ran : body.lower.run steps memory = .halted (.ok value) behind) (last : Value) :
    ∃ rounds value', body.interpret rounds last memory = some (.ok value', behind) := by
  obtain ⟨rounds, ends⟩ := (exists_run_iff_interpret hs memory behind (.ok value)).1 ⟨steps, ran⟩
  have nothing (memory : Memory) : memory.following #[] = memory := by simp [Memory.following]
  have same := body.oblivious rounds #[] .void last memory
  rw [ends, nothing] at same
  generalize hending : body.interpret rounds last memory = ending at same
  cases same with
  | value _ value' _ => exact ⟨rounds, value', by rw [hending, nothing]⟩

/-- A body that does not write to a variable leaves its entry as it is. -/
theorem get?_of_run (hs : body.Structured) (kept : ∀ site ∈ body.sites, site.target ≠ v)
    (ran : body.lower.run steps memory = .halted (.ok value) behind) :
    behind.store.get? v = memory.store.get? v := by
  obtain ⟨rounds, ends⟩ := (exists_run_iff_interpret hs memory behind (.ok value)).1 ⟨steps, ran⟩
  have keeps := body.keeps rounds (outlasts_get? kept (memory.store.get? v))
  exact keeps .void memory _ rfl ends

/-- A round goes through the code of the body once and makes the variable one
higher. -/
theorem visits_round (hp : (countingCode fresh v lower upper body).labels.Nodup)
    (hs : body.Structured) (kept : ∀ site ∈ body.sites, site.target ≠ v)
    (counted : memory.store.get? v = some (.int k))
    (ran : body.lower.run steps memory = .halted (.ok value) behind) (last : Value) :
    ∃ n, advance (countingCode fresh v lower upper body) n ⟨3, last, memory⟩ =
        .running ⟨testIndex fresh v body, .int (k + 1), behind.give v (.int (k + 1))⟩ ∧
      visits (countingCode fresh v lower upper body) 3 n ⟨3, last, memory⟩ = [memory] := by
  have structured : (block [body, countingStep v]).Structured := by
    refine .block _ fun s hmem => ?_
    simp only [List.mem_cons, List.not_mem_nil, or_false] at hmem
    rcases hmem with rfl | rfl
    · exact hs
    · exact .expression _
  obtain ⟨rounds, value', meaning⟩ := exists_interpret_of_run hs ran last
  have still := (get?_of_run hs kept ran).trans counted
  have ends : (block [body, countingStep v]).interpret rounds last memory =
      some (.ok (.int (k + 1)), behind.give v (.int (k + 1))) := by
    rw [interpret, interpretAll, andThen_of_ok meaning, interpretAll, interpretAll,
      interpret_countingStep, andThen_skip, ofEvaluating, on_increment still]
  -- In front of the test the code realizes the round, and there a run can only end.
  have hq : (entryCode fresh v lower ++ roundCode fresh v body).labels.Nodup := by
    rw [countingCode, labels_append] at hp
    exact (List.nodup_append.1 hp).1
  have spelled : roundCode fresh v body =
      (block [body, countingStep v]).code fresh 3 ++ [label (fresh 1)] := by
    simp [roundCode, code, codeAll, countingStep]
  have round : (entryCode fresh v lower ++ roundCode fresh v body).Holds 3
      ((block [body, countingStep v]).code fresh 3 ++ [label (fresh 1)]) := by
    rw [← spelled]
    exact (holds_append_iff.1 (holds_self _)).2
  rw [holds_append_iff] at round
  have realized := realizedIn_of_structured hq fresh structured 3 3 round.1
  have behindRound := holds_cons_iff.1 round.2
  obtain ⟨n, arrives⟩ := (realized.leave (step_label behindRound.1)).arrives ends
  have test : 3 + ((block [body, countingStep v]).code fresh 3).length + 1 =
      testIndex fresh v body := by
    rw [testIndex, spelled, List.length_append, List.length_singleton, Nat.add_assoc]
  rw [test] at arrives
  have moved : testIndex fresh v body ≠ 3 := Nat.ne_of_gt (lt_testIndex fresh v body)
  exact ⟨n, visits_of_selfContained hp (selfContained_roundCode hs fresh v) rfl arrives moved⟩

end Round

section Runs

variable (hp : (countingCode fresh v lower upper body).labels.Nodup) {memory : Memory}
  {last : Value} {a k bound : Int32}

theorem length_countingCode (fresh : Nat → Label) (v : Variable) (lower upper : Expr)
    (body : Stmt) :
    (countingCode fresh v lower upper body).length = testIndex fresh v body + 2 := by
  simp only [countingCode, entryCode, exitCode, testIndex, List.length_append, List.length_cons,
    List.length_nil, Nat.zero_add, Nat.reduceAdd]

include hp

/-- The test goes back to the body as long as the variable has not passed the
bound. -/
theorem tests_testIndex : (countingCode fresh v lower upper body).Tests (testIndex fresh v body)
    (counts v upper) 3 (testIndex fresh v body + 1) := by
  obtain ⟨entry, -, exit⟩ := holds_countingCode fresh v lower upper body
  simp only [entryCode, exitCode, holds_cons_iff] at entry exit
  rw [← holds_countingCondition]
  exact tests_gotoIf hp exit.1 entry.2.2.1

/-- The run goes to the test with the lower bound as the value of the variable. -/
theorem advance_entry (hlower : lower = .literal (.int a)) (memory : Memory) :
    advance (countingCode fresh v lower upper body) 2 (.start memory) =
        .running ⟨testIndex fresh v body, .int a, memory.give v (.int a)⟩ ∧
      visits (countingCode fresh v lower upper body) 3 2 (.start memory) = [] := by
  subst hlower
  obtain ⟨entry, round, -⟩ := holds_countingCode fresh v (.literal (.int a)) upper body
  simp only [entryCode, holds_cons_iff] at entry
  rw [roundCode, holds_append_iff, holds_cons_iff, holds_cons_iff] at round
  have declared : step (countingCode fresh v (.literal (.int a)) upper body) (.start memory) =
      .running ⟨1, .int a, memory.give v (.int a)⟩ := by
    simp only [step, start, entry.1]
    rfl
  have test : 3 + (body.code fresh 3).length + 1 + 1 = testIndex fresh v body := by
    simp only [testIndex, roundCode, List.length_append, List.length_cons, List.length_nil,
      Nat.zero_add, Nat.reduceAdd, Nat.add_assoc]
  have entered := step_goto hp entry.2.1 round.2.2.1 (.int a) (memory.give v (.int a))
  rw [test] at entered
  constructor
  · rw [advance, declared]
    exact advance_one.trans entered
  · rw [visits_pass declared (by simp [start]), visits_pass entered (by simp), visits]

/-- Where the variable has passed the bound, the run is over. -/
theorem advance_exit (hupper : upper = .literal (.int bound))
    (counted : memory.store.get? v = some (.int k)) (passed : ¬ k ≤ bound) (last : Value) :
    advance (countingCode fresh v lower upper body) 3 ⟨testIndex fresh v body, last, memory⟩ =
        .halted (.ok last) memory ∧
      visits (countingCode fresh v lower upper body) 3 3
        ⟨testIndex fresh v body, last, memory⟩ = [] := by
  subst hupper
  obtain ⟨-, -, exit⟩ := holds_countingCode fresh v lower (.literal (.int bound)) body
  rw [exitCode, holds_cons_iff, holds_cons_iff] at exit
  have fails : step (countingCode fresh v lower (.literal (.int bound)) body)
      ⟨testIndex fresh v body, last, memory⟩ =
        .running ⟨testIndex fresh v body + 1, last, memory⟩ :=
    (tests_testIndex hp).step_of_false
      ((on_counts counted).trans (by rw [decide_eq_false passed]))
  have passedBy := step_label exit.2.1 last memory
  have ends : step (countingCode fresh v lower (.literal (.int bound)) body)
      ⟨testIndex fresh v body + 1 + 1, last, memory⟩ = .halted (.ok last) memory := by
    have behind : (countingCode fresh v lower (.literal (.int bound)) body)[
        testIndex fresh v body + 1 + 1]? = none :=
      List.getElem?_eq_none (Nat.le_of_eq (length_countingCode fresh v lower _ body))
    simp only [step, behind]
  have later := lt_testIndex fresh v body
  constructor
  · rw [advance, fails]
    show advance _ 2 _ = _
    rw [advance, passedBy]
    exact advance_one.trans ends
  · rw [visits_pass fails (Nat.ne_of_gt later), visits_pass passedBy (by simp; omega),
      visits_of_halted ends (by simp; omega)]

/-- From the test on, the rounds that are left are made one after the other. -/
theorem exists_rounds (hupper : upper = .literal (.int bound)) (room : bound.toInt < 2147483647)
    (hs : body.Structured) (kept : ∀ site ∈ body.sites, site.target ≠ v)
    (ends : ∀ memory k, a ≤ k → k ≤ bound → memory.store.get? v = some (.int k) →
      ∃ steps value after, body.lower.run steps memory = .halted (.ok value) after)
    (counted : memory.store.get? v = some (.int k)) (reached : a ≤ k) :
    ∃ steps result after starts,
      advance (countingCode fresh v lower upper body) steps
        ⟨testIndex fresh v body, .int k, memory⟩ = .halted (.ok (.int result)) after ∧
      result.toInt = max k.toInt (bound.toInt + 1) ∧
      after.store.get? v = some (.int result) ∧
      visits (countingCode fresh v lower upper body) 3 steps
        ⟨testIndex fresh v body, .int k, memory⟩ = starts ∧
      starts.map (·.counter? v) =
        (List.range (bound.toInt - k.toInt + 1).toNat).map (fun j : Nat => some (k.toInt + j)) ∧
      Rounds v body memory starts after := by
  subst hupper
  -- The induction is on the number of rounds that are left.
  generalize hleft : (bound.toInt - k.toInt + 1).toNat = left
  induction left generalizing k memory with
  | zero =>
    have passed : ¬ k ≤ bound := by
      rw [Int32.le_iff_toInt_le]
      omega
    obtain ⟨run, elsewhere⟩ := advance_exit hp rfl counted passed (.int k)
    exact ⟨3, k, memory, [], run, by omega, counted, elsewhere, rfl, .done memory⟩
  | succ left ih =>
    have inside : k ≤ bound := by
      rw [Int32.le_iff_toInt_le]
      omega
    have grown := toInt_add_one inside room
    have further : a ≤ k + 1 := by
      rw [Int32.le_iff_toInt_le] at reached ⊢
      omega
    obtain ⟨steps, value, behind, ran⟩ := ends memory k reached inside counted
    have entered : step (countingCode fresh v lower (.literal (.int bound)) body)
        ⟨testIndex fresh v body, .int k, memory⟩ = .running ⟨3, .int k, memory⟩ :=
      (tests_testIndex hp).step_of_true
        ((on_counts counted).trans (by rw [decide_eq_true inside]))
    obtain ⟨n, round, visit⟩ := visits_round hp hs kept counted ran (.int k)
    obtain ⟨more, result, after, starts, run, hresult, hafter, hvisits, hcounters, rounds⟩ :=
      ih (Memory.get?_give_self behind v (.int (k + 1))) further (by omega)
    refine ⟨n + more + 1, result, after, memory :: starts, ?_, by omega, hafter, ?_, ?_,
      .round counted ran rounds⟩
    · rw [advance, entered]
      exact (advance_add_of_running round more).trans run
    · have elsewhere := Nat.ne_of_gt (lt_testIndex fresh v body)
      rw [visits_pass entered elsewhere, visits_add_of_running round, visit, hvisits]
      rfl
    · rw [List.map_cons, Memory.counter?_of_get? counted, hcounters, List.range_succ_eq_map,
        List.map_cons, List.map_map]
      refine List.cons_eq_cons.2 ⟨by simp, List.map_congr_left fun j _ => congrArg some ?_⟩
      rw [grown, Nat.succ_eq_add_one]
      omega

end Runs

/-- Counting loops count. Let the upper bound be below the largest integer, and let
the body be a structured statement that gives the variable no value and ends
without a fault whenever the variable is between the bounds. Then on every memory
the flat program of the loop ends with an integer, which is the maximum of the
lower bound and the integer above the upper bound and the value of the variable
in the end. It comes to the code of the body, at index 3, as often as there are
integers between the bounds, and there the variable is the lower bound, the
integer above it and so on. Each time the body does what it does by itself. -/
theorem lower_forLoop_counts {v : Variable} {a b : Int32} {body : Stmt}
    (room : b.toInt < 2147483647) (hs : body.Structured)
    (kept : ∀ site ∈ body.sites, site.target ≠ v)
    (ends : ∀ memory k, a ≤ k → k ≤ b → memory.store.get? v = some (.int k) →
      ∃ steps value after, body.lower.run steps memory = .halted (.ok value) after)
    (memory : Memory) :
    (forLoop v (.literal (.int a)) (.literal (.int b)) body).lower.Holds 3
      (body.code (freshLabel body.labelBound) 3) ∧
    ∃ steps result after starts,
      (forLoop v (.literal (.int a)) (.literal (.int b)) body).lower.run steps memory =
        .halted (.ok (.int result)) after ∧
      result.toInt = max a.toInt (b.toInt + 1) ∧
      after.store.get? v = some (.int result) ∧
      visits (forLoop v (.literal (.int a)) (.literal (.int b)) body).lower 3 steps
        (.start memory) = starts ∧
      starts.map (·.counter? v) =
        (List.range (b.toInt - a.toInt + 1).toNat).map (fun j : Nat => some (a.toInt + j)) ∧
      Rounds v body (memory.give v (.int a)) starts after := by
  have structured := Structured.forLoop v (.literal (.int a)) (.literal (.int b)) body hs
  have hp := nodup_labels_lower structured
  rw [lower_forLoop] at hp ⊢
  obtain ⟨-, round, -⟩ := holds_countingCode (freshLabel body.labelBound) v (.literal (.int a))
    (.literal (.int b)) body
  rw [roundCode, holds_append_iff] at round
  obtain ⟨entered, elsewhere⟩ := advance_entry hp rfl memory
  obtain ⟨steps, result, after, starts, run, hresult, hafter, hvisits, hcounters, rounds⟩ :=
    exists_rounds hp rfl room hs kept ends (Memory.get?_give_self memory v (.int a))
      (Int32.le_refl a)
  refine ⟨round.1, 2 + steps, result, after, starts, ?_, hresult, hafter, ?_, hcounters, rounds⟩
  · exact (advance_add_of_running entered steps).trans run
  · rw [visits_add_of_running entered, elsewhere, hvisits, List.nil_append]

/-- Counts up to the largest bound and keeps a copy of the variable. -/
def limitSample : Stmt :=
  forLoop ⟨0, "i", .int, true⟩ (.literal (.int 2147483644)) (.literal (.int 2147483646))
    (declaration ⟨1, "copy", .int, false⟩ (.name ⟨0, "i", .int, true⟩))

/-- Next to the largest integer the loop makes its three rounds and stops. -/
theorem lower_forLoop_counts_limitSample :
    ∃ steps after starts,
      limitSample.lower.run steps (.start .empty [] (.ofSeed 0)) =
        .halted (.ok (.int 2147483647)) after ∧
      visits limitSample.lower 3 steps (.start (.start .empty [] (.ofSeed 0))) = starts ∧
      starts.map (·.counter? ⟨0, "i", .int, true⟩) =
        [some 2147483644, some 2147483645, some 2147483646] := by
  have kept : ∀ site ∈ (declaration ⟨1, "copy", .int, false⟩ (.name ⟨0, "i", .int, true⟩)).sites,
      site.target ≠ ⟨0, "i", .int, true⟩ := by
    simp [sites, Expr.sites]
  have ends (memory : Memory) (k : Int32)
      (counted : memory.store.get? ⟨0, "i", .int, true⟩ = some (.int k)) :
      ∃ steps value after, (declaration ⟨1, "copy", .int, false⟩
        (.name ⟨0, "i", .int, true⟩)).lower.run steps memory = .halted (.ok value) after := by
    have copies : (declaration ⟨1, "copy", .int, false⟩ (.name ⟨0, "i", .int, true⟩)).interpret 0
        .void memory = some (.ok (.int k), memory.give ⟨1, "copy", .int, false⟩ (.int k)) := by
      rw [interpret, ofEvaluating, declare, Expr.evaluate, on_bind_of_ok (on_read counted)]
      rfl
    obtain ⟨steps, run⟩ := (exists_run_iff_interpret (.declaration _ _) memory _ _).2 ⟨0, copies⟩
    exact ⟨steps, _, _, run⟩
  obtain ⟨-, steps, result, after, starts, run, hresult, -, hvisits, hcounters, -⟩ :=
    lower_forLoop_counts (a := 2147483644) (b := 2147483646) (by decide) (.declaration _ _) kept
      (fun memory k _ _ counted => ends memory k counted) (.start .empty [] (.ofSeed 0))
  obtain rfl : result = 2147483647 := Int32.toInt_inj.1 hresult
  exact ⟨steps, after, starts, run, hvisits, hcounters⟩

end Bound.Stmt

end Scriptlet
