import Scriptlet.Evaluation.Machine
import Scriptlet.Proofs.Lowering.Structured

/-!
# Pieces of flat programs that realize a meaning

A run is split at the machines it comes to. A piece of a program realizes a
meaning if a run that enters it at its first statement comes to the place behind
it, or halts inside it, just as the meaning says, and if the meaning has an end
whenever the run halts at all. Pieces are put together as meanings are: in a
row, by a jump that depends on a test, and around a loop.
-/

namespace Scriptlet

namespace Machine

/-- A run from the first machine comes to the second one. -/
def Reaches (p : Program) (m m' : Machine) : Prop := ∃ steps, m.advance p steps = .running m'

/-- A run from the machine is over after a number of steps. -/
def HaltsWithin (p : Program) (steps : Nat) (m : Machine) : Prop :=
  ∃ result memory, m.advance p steps = .halted result memory

variable {p : Program} {m m' m'' : Machine} {steps : Nat} {result : Except Fault Value}
  {memory : Memory}

/-- A run goes on from every machine it comes to. -/
theorem advance_add_of_running (h : m.advance p steps = .running m') (more : Nat) :
    m.advance p (steps + more) = m'.advance p more := by
  induction steps generalizing m with
  | zero => simp_all [advance]
  | succ steps ih =>
    rw [Nat.succ_add]
    rw [advance] at h ⊢
    cases hs : m.step p with
    | running next => simp only [hs] at h ⊢; exact ih h
    | halted r after => simp only [hs, reduceCtorEq] at h

/-- One step is a run of length one. -/
theorem advance_one : m.advance p 1 = m.step p := by
  rw [advance]
  cases m.step p <;> rfl

theorem Reaches.refl (p : Program) (m : Machine) : Reaches p m m := ⟨0, rfl⟩

theorem Reaches.step (h : m.step p = .running m') : Reaches p m m' := ⟨1, advance_one.trans h⟩

theorem Reaches.trans (h : Reaches p m m') (h' : Reaches p m' m'') : Reaches p m m'' := by
  obtain ⟨steps, hs⟩ := h
  obtain ⟨steps', hs'⟩ := h'
  exact ⟨steps + steps', (advance_add_of_running hs steps').trans hs'⟩

/-- A run that comes to a failing step fails as that step does. -/
theorem Reaches.halts (h : Reaches p m m') (h' : m'.step p = .halted result memory) :
    ∃ steps, m.advance p steps = .halted result memory := by
  obtain ⟨steps, hs⟩ := h
  exact ⟨steps + 1, (advance_add_of_running hs 1).trans (advance_one.trans h')⟩

/-- Whatever the number of steps granted, a run has one end. -/
theorem halted_unique {steps' : Nat} {result' : Except Fault Value} {memory' : Memory}
    (h : m.advance p steps = .halted result memory)
    (h' : m.advance p steps' = .halted result' memory') : result = result' ∧ memory = memory' := by
  have long := advance_add h steps'
  rw [Nat.add_comm, advance_add h' steps] at long
  cases long
  exact ⟨rfl, rfl⟩

/-- A run that is over does not become longer where it is entered later. -/
theorem HaltsWithin.of_reaches (h : HaltsWithin p steps m) (h' : Reaches p m m') :
    HaltsWithin p steps m' := by
  obtain ⟨result, memory, hs⟩ := h
  obtain ⟨first, hf⟩ := h'
  have long := advance_add hs first
  rw [Nat.add_comm, advance_add_of_running hf steps] at long
  exact ⟨result, memory, long⟩

/-- A run that is over after a step has one step less to go. -/
theorem HaltsWithin.of_step (h : HaltsWithin p (steps + 1) m) (h' : m.step p = .running m') :
    HaltsWithin p steps m' := by
  obtain ⟨result, memory, hs⟩ := h
  rw [advance, h'] at hs
  exact ⟨result, memory, hs⟩

/-- No run is over before its first step. -/
theorem not_haltsWithin_zero : ¬ HaltsWithin p 0 m := by
  rintro ⟨result, memory, h⟩
  cases h

end Machine

namespace Program

open Machine Meaning

/-- A run comes to an index with a value, or fails inside a piece of the
program. -/
def Arrives (p : Program) (piece : Nat → Prop) (m : Machine) (index : Nat) :
    Except Fault Value × Memory → Prop
  | (.ok value, after) => Reaches p m ⟨index, value, after⟩
  | (.error fault, after) =>
    ∃ failing, Reaches p m failing ∧ piece failing.index ∧
      failing.step p = .halted (.error fault) after

/-- A piece of a program, entered at its first index and left at its last one,
does what a meaning says, however many rounds the meaning needs. -/
structure Realizes (p : Program) (piece : Nat → Prop) (first last : Nat) (run : Nat → Meaning) :
    Prop where
  /-- Every end of the meaning is one of the run. -/
  arrives : ∀ {rounds value memory ending}, run rounds value memory = some ending →
    p.Arrives piece ⟨first, value, memory⟩ last ending
  /-- The meaning has an end if the run has. -/
  settles : ∀ {steps value memory}, HaltsWithin p steps ⟨first, value, memory⟩ →
    ∃ rounds ending, run rounds value memory = some ending

/-- More rounds reach every end that fewer rounds reach. -/
def Growing (run : Nat → Meaning) : Prop :=
  ∀ {rounds more : Nat}, rounds ≤ more → (run rounds).Extends (run more)

variable {p : Program} {piece : Nat → Prop} {i j k : Nat} {run run' : Nat → Meaning}
  {m m' : Machine} {ending : Except Fault Value × Memory}

theorem Arrives.of_reaches (h : Reaches p m m') (h' : p.Arrives piece m' i ending) :
    p.Arrives piece m i ending := by
  rcases ending with ⟨fault | value, after⟩
  · obtain ⟨failing, hr, hi, hs⟩ := h'
    exact ⟨failing, h.trans hr, hi, hs⟩
  · exact h.trans h'

/-- Nothing is done where the piece is left at once. -/
theorem realizes_skip (p : Program) (piece : Nat → Prop) (i : Nat) :
    p.Realizes piece i i (fun _ => skip) where
  arrives h := by
    cases h
    exact Reaches.refl ..
  settles _ := ⟨0, _, rfl⟩

/-- A piece may be entered through a step that changes nothing but the index. -/
theorem Realizes.enter (h : p.Realizes piece j k run)
    (hs : ∀ value memory, Machine.step p ⟨i, value, memory⟩ = .running ⟨j, value, memory⟩) :
    p.Realizes piece i k run where
  arrives he := Arrives.of_reaches (Reaches.step (hs _ _)) (h.arrives he)
  settles hh := h.settles (hh.of_reaches (Reaches.step (hs _ _)))

/-- A piece may be left through a step that changes nothing but the index. -/
theorem Realizes.leave (h : p.Realizes piece i j run)
    (hs : ∀ value memory, Machine.step p ⟨j, value, memory⟩ = .running ⟨k, value, memory⟩) :
    p.Realizes piece i k run where
  arrives {_ _ _ ending} he := by
    have hj := h.arrives he
    rcases ending with ⟨fault | value, after⟩
    · exact hj
    · exact hj.trans (Reaches.step (hs _ _))
  settles := h.settles

/-- A larger piece fails wherever a smaller one does. -/
theorem Realizes.widen {piece' : Nat → Prop} (h : p.Realizes piece i j run)
    (hp : ∀ n, piece n → piece' n) : p.Realizes piece' i j run where
  arrives {_ _ _ ending} he := by
    have hj := h.arrives he
    rcases ending with ⟨fault | value, after⟩
    · obtain ⟨failing, hr, hi, hs⟩ := hj
      exact ⟨failing, hr, hp _ hi, hs⟩
    · exact hj
  settles := h.settles

/-- A piece behind another one does what the meanings do in a row. -/
theorem Realizes.andThen (h : p.Realizes piece i j run) (h' : p.Realizes piece j k run')
    (grow : Growing run) (grow' : Growing run') :
    p.Realizes piece i k (fun rounds => (run rounds).andThen (run' rounds)) where
  arrives {rounds last memory ending} he := by
    rcases hr : run rounds last memory with _ | ⟨fault | value, after⟩
    · rw [andThen_of_none hr] at he
      cases he
    · rw [andThen_of_error hr] at he
      cases he
      exact h.arrives hr
    · rw [andThen_of_ok hr] at he
      exact Arrives.of_reaches (h.arrives hr) (h'.arrives he)
  settles {steps last memory} hh := by
    obtain ⟨rounds, ending, hr⟩ := h.settles hh
    rcases ending with ⟨fault | value, after⟩
    · exact ⟨rounds, _, andThen_of_error hr⟩
    · obtain ⟨rounds', ending, hr'⟩ := h'.settles (hh.of_reaches (h.arrives hr))
      have hmax := grow (Nat.le_max_left rounds rounds') _ _ _ hr
      have hmax' := grow' (Nat.le_max_right rounds rounds') _ _ _ hr'
      exact ⟨max rounds rounds', ending, (andThen_of_ok hmax).trans hmax'⟩

/-- What a step at an index does if it makes a test, and where it goes. -/
def Tests (p : Program) (i : Nat) (test : Evaluating Bool) (yes no : Nat) : Prop :=
  ∀ last memory, Machine.step p ⟨i, last, memory⟩ =
    match test.on memory with
    | (.ok true, after) => .running ⟨yes, last, after⟩
    | (.ok false, after) => .running ⟨no, last, after⟩
    | (.error fault, after) => .halted (.error fault) after

section Tests

variable {test : Evaluating Bool} {yes no : Nat} {last : Value} {memory after : Memory}
  {fault : Fault}

theorem Tests.step_of_true (h : p.Tests i test yes no) (ht : test.on memory = (.ok true, after)) :
    Machine.step p ⟨i, last, memory⟩ = .running ⟨yes, last, after⟩ := by
  rw [h, ht]

theorem Tests.step_of_false (h : p.Tests i test yes no) (ht : test.on memory = (.ok false, after)) :
    Machine.step p ⟨i, last, memory⟩ = .running ⟨no, last, after⟩ := by
  rw [h, ht]

theorem Tests.step_of_error (h : p.Tests i test yes no)
    (ht : test.on memory = (.error fault, after)) :
    Machine.step p ⟨i, last, memory⟩ = .halted (.error fault) after := by
  rw [h, ht]

/-- A jump on a test does what a branch does. -/
theorem realizes_branch (h : p.Tests i test yes no) (hi : piece i)
    (hyes : p.Realizes piece yes k run) (hno : p.Realizes piece no k run') :
    p.Realizes piece i k (fun rounds => branch test (run rounds) (run' rounds)) where
  arrives {rounds last memory ending} he := by
    rcases ht : test.on memory with ⟨fault | (_ | _), after⟩
    · rw [branch_of_error ht] at he
      cases he
      exact ⟨_, Reaches.refl .., hi, h.step_of_error ht⟩
    · rw [branch_of_false ht] at he
      exact Arrives.of_reaches (Reaches.step (h.step_of_false ht)) (hno.arrives he)
    · rw [branch_of_true ht] at he
      exact Arrives.of_reaches (Reaches.step (h.step_of_true ht)) (hyes.arrives he)
  settles {steps last memory} hh := by
    rcases ht : test.on memory with ⟨fault | (_ | _), after⟩
    · exact ⟨0, _, branch_of_error ht⟩
    · obtain ⟨rounds, ending, hr⟩ :=
        hno.settles (hh.of_reaches (Reaches.step (h.step_of_false ht)))
      exact ⟨rounds, ending, (branch_of_false ht).trans hr⟩
    · obtain ⟨rounds, ending, hr⟩ :=
        hyes.settles (hh.of_reaches (Reaches.step (h.step_of_true ht)))
      exact ⟨rounds, ending, (branch_of_true ht).trans hr⟩

/-- A test that goes back to a body in front of it does what a loop does. -/
theorem realizes_loop (h : p.Tests i test yes no) (hi : piece i)
    (body : p.Realizes piece yes i run) (grow : Growing run) :
    p.Realizes piece i no (fun rounds => loop test (run rounds) rounds) where
  arrives := by
    -- The rounds of the loop are counted down while those of its body stay.
    suffices key : ∀ granted rounds last memory ending,
        loop test (run granted) rounds last memory = some ending →
        p.Arrives piece ⟨i, last, memory⟩ no ending from fun {_ _ _ _} he => key _ _ _ _ _ he
    intro granted rounds
    induction rounds with
    | zero => intro last memory ending he; cases he
    | succ rounds ih =>
      intro last memory ending he
      rw [loop] at he
      rcases ht : test.on memory with ⟨fault | (_ | _), after⟩
      · rw [branch_of_error ht] at he
        cases he
        exact ⟨_, Reaches.refl .., hi, h.step_of_error ht⟩
      · rw [branch_of_false ht] at he
        cases he
        exact Reaches.step (h.step_of_false ht)
      · rw [branch_of_true ht] at he
        apply Arrives.of_reaches (Reaches.step (h.step_of_true ht))
        rcases hb : run granted last after with _ | ⟨fault | value, behind⟩
        · rw [andThen_of_none hb] at he
          cases he
        · rw [andThen_of_error hb] at he
          cases he
          exact body.arrives hb
        · rw [andThen_of_ok hb] at he
          exact Arrives.of_reaches (body.arrives hb) (ih _ _ _ he)
  settles {steps last memory} hh := by
    -- Every round takes a step, so the steps that are left bound the rounds.
    induction steps generalizing last memory with
    | zero => exact absurd hh not_haltsWithin_zero
    | succ steps ih =>
      rcases ht : test.on memory with ⟨fault | (_ | _), after⟩
      · exact ⟨1, _, by rw [loop, branch_of_error ht]⟩
      · exact ⟨1, _, by rw [loop, branch_of_false ht]; rfl⟩
      · have inside := hh.of_step (h.step_of_true ht)
        obtain ⟨rounds, ending, hb⟩ := body.settles inside
        rcases ending with ⟨fault | value, behind⟩
        · refine ⟨rounds + 1, (.error fault, behind), ?_⟩
          rw [loop, branch_of_true ht, andThen_of_error (grow (Nat.le_succ rounds) _ _ _ hb)]
        · obtain ⟨rounds', ending, hl⟩ := ih (inside.of_reaches (body.arrives hb))
          have more := grow (Nat.le_succ_of_le (Nat.le_max_left rounds rounds')) _ _ _ hb
          have bodies := grow (Nat.le_succ_of_le (Nat.le_max_right rounds rounds'))
          refine ⟨max rounds rounds' + 1, ending, ?_⟩
          rw [loop, branch_of_true ht, andThen_of_ok more]
          exact Extends.loop bodies (Nat.le_max_right rounds rounds') _ _ _ hl

end Tests

/-- A step that evaluates and goes on behind itself does what the evaluation
does. -/
theorem realizes_ofEvaluating {m : Evaluating Value} (hi : piece i)
    (h : ∀ last memory, Machine.step p ⟨i, last, memory⟩ =
      match m.on memory with
      | (.ok value, after) => .running ⟨i + 1, value, after⟩
      | (.error fault, after) => .halted (.error fault) after) :
    p.Realizes piece i (i + 1) (fun _ => ofEvaluating m) where
  arrives {rounds last memory ending} he := by
    cases he
    rcases hm : m.on memory with ⟨fault | value, after⟩
    · exact ⟨_, Reaches.refl .., hi, by rw [h, hm]⟩
    · exact Reaches.step (by rw [h, hm])
  settles _ := ⟨0, _, rfl⟩

end Program

end Scriptlet
