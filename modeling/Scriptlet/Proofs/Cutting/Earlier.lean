import Scriptlet.Proofs.Evaluation.Closed
import Scriptlet.Proofs.Lowering.Structured

/-!
# What came before does not matter

A program cannot see the lines that were printed before it started, and no
statement looks at the value of the one before it. So a statement that runs
behind others does what it does when it is run by itself on the store, inputs
and draws that the others left.
-/

namespace Scriptlet

/-- The memory behind some more lines that were printed before. -/
def Memory.following (lines : Array String) (memory : Memory) : Memory :=
  { memory with console := { memory.console with printed := lines ++ memory.console.printed } }

namespace Memory

variable (lines : Array String) (memory : Memory)

@[simp] theorem store_following : (memory.following lines).store = memory.store := rfl

/-- Every memory is that of a program about to start, behind the lines printed. -/
theorem following_start :
    (start memory.store memory.console.inputs memory.draws).following memory.console.printed =
      memory := by
  obtain ⟨store, ⟨inputs, printed⟩, draws⟩ := memory
  simp [following, start]

end Memory

namespace Evaluating

/-- Lines printed before change nothing but themselves. -/
def Oblivious {α : Type} (m : Evaluating α) : Prop :=
  ∀ lines memory, m.on (memory.following lines) =
    ((m.on memory).1, (m.on memory).2.following lines)

variable {α β : Type} {m : Evaluating α} {f : α → Evaluating β}

theorem oblivious_pure (a : α) : Oblivious (pure a) := fun _ _ => rfl

theorem oblivious_lift (result : Except Fault α) : Oblivious (lift result) := fun _ _ => rfl

/-- A sequence is oblivious if its parts are. -/
theorem Oblivious.bind (h : Oblivious m) (h' : ∀ a, Oblivious (f a)) : Oblivious (m >>= f) := by
  intro lines memory
  rw [on_bind, on_bind, h]
  rcases m.on memory with ⟨fault | a, behind⟩
  · rfl
  · exact h' a lines behind

/-- A variable is read from the store. -/
theorem oblivious_read (v : Variable) : Oblivious (read v) := by
  intro lines memory
  simp only [read, on_bind, on_memory, Memory.store_following]
  cases memory.store.get? v <;> rfl

/-- A value is written to the store. -/
theorem oblivious_write (v : Variable) (value : Value) : Oblivious (write v value) :=
  fun _ _ => rfl

/-- A line is printed behind the others. -/
theorem oblivious_print (text : String) : Oblivious (print text) := by
  intro lines memory
  simp [print, on_bind, Memory.following, Console.print, Array.push_append]

/-- A line is read from the inputs. -/
theorem oblivious_readLine : Oblivious readLine := by
  rintro lines ⟨store, ⟨inputs, printed⟩, draws⟩
  cases inputs <;> rfl

/-- An integer is drawn from the draws. -/
theorem oblivious_random (bound : Int32) : Oblivious (random bound) := by
  unfold random
  split <;> exact fun _ _ => rfl

/-- No step of evaluating looks at the lines printed before it. -/
theorem closed_oblivious : Closed fun _ => Oblivious where
  lift := oblivious_lift
  bind := Oblivious.bind
  read := oblivious_read
  write := oblivious_write
  print := oblivious_print
  readLine := oblivious_readLine
  random := oblivious_random

end Evaluating

namespace Meaning

open Evaluating

/-- Two ends that differ in nothing but the last value and in lines that were
printed before. -/
inductive SameEnd (lines : Array String) :
    Option (Except Fault Value × Memory) → Option (Except Fault Value × Memory) → Prop where
  | none : SameEnd lines none none
  | value (last last' : Value) (behind : Memory) :
      SameEnd lines (some (.ok last, behind)) (some (.ok last', behind.following lines))
  | fault (fault : Fault) (behind : Memory) :
      SameEnd lines (some (.error fault, behind)) (some (.error fault, behind.following lines))

/-- Neither lines printed before nor the last value change where a meaning ends. -/
def Oblivious (m : Meaning) : Prop :=
  ∀ lines last last' memory, SameEnd lines (m last memory) (m last' (memory.following lines))

variable {first second yes no body : Meaning} {test : Evaluating Bool}

theorem oblivious_skip : Oblivious skip := fun _ last last' memory => .value last last' memory

theorem oblivious_endless : Oblivious endless := fun _ _ _ _ => .none

/-- An evaluation is oblivious as a meaning if it is by itself. -/
theorem oblivious_ofEvaluating {m : Evaluating Value} (h : m.Oblivious) :
    Oblivious (ofEvaluating m) := by
  intro lines last last' memory
  rw [ofEvaluating, ofEvaluating, h]
  rcases m.on memory with ⟨fault | value, behind⟩
  · exact .fault fault behind
  · exact .value value value behind

/-- A sequence is oblivious if its parts are. -/
theorem Oblivious.andThen (h : Oblivious first) (h' : Oblivious second) :
    Oblivious (first.andThen second) := by
  intro lines last last' memory
  have ends := h lines last last' memory
  rw [Meaning.andThen, Meaning.andThen]
  generalize first last memory = ending at ends ⊢
  generalize first last' (memory.following lines) = ending' at ends ⊢
  cases ends with
  | none => exact .none
  | value last last' behind => exact h' lines last last' behind
  | fault fault behind => exact .fault fault behind

/-- A branch is oblivious if its test and its sides are. -/
theorem oblivious_branch (htest : test.Oblivious) (hyes : Oblivious yes) (hno : Oblivious no) :
    Oblivious (branch test yes no) := by
  intro lines last last' memory
  rw [branch, branch, htest]
  rcases test.on memory with ⟨fault | (_ | _), behind⟩
  · exact .fault fault behind
  · exact hno lines last last' behind
  · exact hyes lines last last' behind

/-- A loop is oblivious if its test and its body are. -/
theorem oblivious_loop (htest : test.Oblivious) (hbody : Oblivious body) (rounds : Nat) :
    Oblivious (loop test body rounds) := by
  induction rounds with
  | zero => exact oblivious_endless
  | succ rounds ih => exact oblivious_branch htest (hbody.andThen ih) oblivious_skip

end Meaning

namespace Bound

open Evaluating Meaning

/-- An expression does not look at the lines printed before it. -/
theorem Expr.oblivious (e : Expr) : e.evaluate.Oblivious := e.closed_evaluate closed_oblivious

/-- A test does not look at the lines printed before it. -/
theorem Expr.oblivious_holds (e : Expr) : e.holds.Oblivious :=
  e.oblivious.bind fun _ => oblivious_lift _

namespace Stmt

/-- A declaration does not look at the lines printed before it. -/
theorem oblivious_declare (target : Variable) (e : Expr) : (declare target e).Oblivious :=
  e.oblivious.bind fun value => (oblivious_write target value).bind fun _ => oblivious_pure value

/-- The test of a counting loop does not look at the lines printed before it. -/
theorem oblivious_counts (target : Variable) (upper : Expr) : (counts target upper).Oblivious :=
  (oblivious_read target).bind fun _ => upper.oblivious.bind fun _ =>
    (oblivious_lift _).bind fun _ => (oblivious_lift _).bind fun _ => oblivious_pure _

/-- The step of a counting loop does not look at the lines printed before it. -/
theorem oblivious_increment (target : Variable) : (increment target).Oblivious :=
  (oblivious_read target).bind fun _ => (oblivious_lift _).bind fun _ =>
    (oblivious_write target _).bind fun _ => oblivious_pure _

mutual

/-- What came before a statement does not change where it ends. -/
theorem oblivious (rounds : Nat) (s : Stmt) : (s.interpret rounds).Oblivious := by
  cases s with
  | block statements => exact obliviousAll rounds statements
  | declaration target initializer =>
    exact oblivious_ofEvaluating (oblivious_declare target initializer)
  | expression inner => exact oblivious_ofEvaluating inner.oblivious
  | ifThen condition consequence =>
    have test := condition.oblivious_holds
    exact oblivious_branch test (consequence.oblivious rounds) oblivious_skip
  | ifElse condition consequence alternative =>
    have test := condition.oblivious_holds
    exact oblivious_branch test (consequence.oblivious rounds) (alternative.oblivious rounds)
  | whileLoop condition body =>
    have test := condition.oblivious_holds
    exact oblivious_loop test (body.oblivious rounds) rounds
  | forLoop target lower upper body =>
    have first := oblivious_ofEvaluating (oblivious_declare target lower)
    have test := oblivious_counts target upper
    have step := oblivious_ofEvaluating (oblivious_increment target)
    have round := (body.oblivious rounds).andThen step
    exact first.andThen (oblivious_loop test round rounds)
  | goto | gotoIf | label => exact oblivious_endless

/-- What came before a row of statements does not change where it ends. -/
theorem obliviousAll (rounds : Nat) (ss : List Stmt) : (interpretAll rounds ss).Oblivious := by
  cases ss with
  | nil => exact oblivious_skip
  | cons s ss => exact (s.oblivious rounds).andThen (obliviousAll rounds ss)

end

end Stmt

end Bound

end Scriptlet
