import Scriptlet.Evaluation.Expr

/-!
# What structured statements mean

A direct account of running a statement, without jumps and without a flat
program: a block runs its parts in order, a condition chooses a branch, and a
loop goes round as long as its test holds. Every loop is granted a number of
rounds, so that the account is a function; a statement that needs more rounds
has no end yet, and more rounds never change an end.
-/

namespace Scriptlet

/-- What a statement does, from the value of the last declaration or expression
before it and the memory to its end. There is no end if the rounds granted to
its loops do not suffice. -/
def Meaning : Type := Value → Memory → Option (Except Fault Value × Memory)

namespace Meaning

/-- Nothing is done. -/
def skip : Meaning := fun last memory => some (.ok last, memory)

/-- No end is reached. -/
def endless : Meaning := fun _ _ => none

/-- An evaluation is done, and its value becomes the last one. -/
def ofEvaluating (m : Evaluating Value) : Meaning := fun _ memory => some (m.on memory)

/-- One is done behind another, unless a fault stops the first. -/
def andThen (first second : Meaning) : Meaning := fun last memory =>
  match first last memory with
  | some (.ok value, after) => second value after
  | stopped => stopped

/-- A test chooses what is done. -/
def branch (test : Evaluating Bool) (yes no : Meaning) : Meaning := fun last memory =>
  match test.on memory with
  | (.ok true, after) => yes last after
  | (.ok false, after) => no last after
  | (.error fault, after) => some (.error fault, after)

/-- The body is done as long as the test holds before it, for a number of
rounds at most. -/
def loop (test : Evaluating Bool) (body : Meaning) : (rounds : Nat) → Meaning
  | 0 => endless
  | rounds + 1 => branch test (body.andThen (loop test body rounds)) skip

/-- Whatever end the first reaches, the second reaches too. -/
def Extends (first second : Meaning) : Prop :=
  ∀ last memory ending, first last memory = some ending → second last memory = some ending

theorem Extends.refl (m : Meaning) : m.Extends m := fun _ _ _ h => h

variable {first second first' second' yes no yes' no' : Meaning} {test : Evaluating Bool}
  {last value : Value} {memory after : Memory} {fault : Fault}

/-- A sequence goes on behind a value. -/
theorem andThen_of_ok (h : first last memory = some (.ok value, after)) :
    first.andThen second last memory = second value after := by
  rw [andThen, h]

/-- A fault of the first part stops a sequence. -/
theorem andThen_of_error (h : first last memory = some (.error fault, after)) :
    first.andThen second last memory = some (.error fault, after) := by
  rw [andThen, h]

/-- A sequence has no end if its first part has none. -/
theorem andThen_of_none (h : first last memory = none) :
    first.andThen second last memory = none := by
  rw [andThen, h]

/-- Nothing behind a meaning leaves it as it is. -/
@[simp] theorem andThen_skip (m : Meaning) : m.andThen skip = m := by
  funext last memory
  rcases h : m last memory with _ | ⟨fault | value, after⟩
  · exact andThen_of_none h
  · exact andThen_of_error h
  · exact andThen_of_ok h

/-- A test that holds chooses the first side. -/
theorem branch_of_true (h : test.on memory = (.ok true, after)) :
    branch test yes no last memory = yes last after := by
  rw [branch, h]

/-- A test that does not hold chooses the second side. -/
theorem branch_of_false (h : test.on memory = (.ok false, after)) :
    branch test yes no last memory = no last after := by
  rw [branch, h]

/-- A fault of the test stops a branch. -/
theorem branch_of_error (h : test.on memory = (.error fault, after)) :
    branch test yes no last memory = some (.error fault, after) := by
  rw [branch, h]

/-- Sequences reach more ends when their parts do. -/
theorem Extends.andThen (h : first.Extends first') (h' : second.Extends second') :
    (first.andThen second).Extends (first'.andThen second') := by
  intro last memory ending he
  rcases hfirst : first last memory with _ | ⟨fault | value, after⟩
  · rw [andThen_of_none hfirst] at he
    cases he
  · rw [andThen_of_error hfirst] at he
    rw [andThen_of_error (h _ _ _ hfirst), he]
  · rw [andThen_of_ok hfirst] at he
    rw [andThen_of_ok (h _ _ _ hfirst), h' _ _ _ he]

/-- Branches reach more ends when their sides do. -/
theorem Extends.branch (h : yes.Extends yes') (h' : no.Extends no') :
    (branch test yes no).Extends (branch test yes' no') := by
  intro last memory ending he
  rcases htest : test.on memory with ⟨fault | (_ | _), after⟩
  · rwa [branch_of_error htest] at he ⊢
  · rw [branch_of_false htest] at he ⊢
    exact h' _ _ _ he
  · rw [branch_of_true htest] at he ⊢
    exact h _ _ _ he

/-- A loop with more rounds and a body that ends more often ends more often. -/
theorem Extends.loop {body body' : Meaning} (h : body.Extends body')
    {rounds more : Nat} (hr : rounds ≤ more) :
    (loop test body rounds).Extends (loop test body' more) := by
  induction rounds generalizing more with
  | zero => intro last memory ending he; cases he
  | succ rounds ih =>
    obtain ⟨more, rfl⟩ : ∃ k, more = k + 1 := ⟨more - 1, by omega⟩
    exact Extends.branch (h.andThen (ih (by omega))) (Extends.refl skip)

end Meaning

namespace Bound

open Evaluating

/-- The truth of a condition. -/
def Expr.holds (condition : Expr) : Evaluating Bool := do
  lift ((← condition.evaluate).expectBool "condition")

namespace Stmt

/-- Gives a variable its first value. -/
def declare (target : Variable) (initializer : Expr) : Evaluating Value := do
  let value ← initializer.evaluate
  write target value
  return value

/-- The variable of a counting loop has not passed the upper bound. -/
def counts (target : Variable) (upper : Expr) : Evaluating Bool := do
  let current ← read target
  let bound ← upper.evaluate
  let reached ← lift (current.expectInt "<=")
  let limit ← lift (bound.expectInt "<=")
  return reached ≤ limit

/-- The variable of a counting loop grows by one. -/
def increment (target : Variable) : Evaluating Value := do
  let current ← read target
  let reached ← lift (current.expectInt "+")
  write target (.int (reached + 1))
  return .int (reached + 1)

mutual

/-- What a statement means when each of its loops is granted a number of rounds.
Jumps and labels mean nothing by themselves. -/
def interpret (rounds : Nat) : Stmt → Meaning
  | block statements => interpretAll rounds statements
  | declaration target initializer => .ofEvaluating (declare target initializer)
  | expression inner => .ofEvaluating inner.evaluate
  | ifThen condition consequence =>
    .branch condition.holds (consequence.interpret rounds) .skip
  | ifElse condition consequence alternative =>
    .branch condition.holds (consequence.interpret rounds) (alternative.interpret rounds)
  | whileLoop condition body => .loop condition.holds (body.interpret rounds) rounds
  | forLoop target lower upper body =>
    (Meaning.ofEvaluating (declare target lower)).andThen
      (.loop (counts target upper)
        ((body.interpret rounds).andThen (.ofEvaluating (increment target))) rounds)
  | goto _ | gotoIf .. | label _ => .endless

/-- What a row of statements means. -/
def interpretAll (rounds : Nat) : List Stmt → Meaning
  | [] => .skip
  | s :: ss => (s.interpret rounds).andThen (interpretAll rounds ss)

end

/-- A statement has neither jumps nor labels in it. -/
inductive Structured : Stmt → Prop where
  | block (statements : List Stmt) (parts : ∀ s ∈ statements, Structured s) :
      Structured (block statements)
  | declaration (target : Variable) (initializer : Expr) :
      Structured (declaration target initializer)
  | expression (inner : Expr) : Structured (expression inner)
  | ifThen (condition : Expr) (consequence : Stmt) (part : Structured consequence) :
      Structured (ifThen condition consequence)
  | ifElse (condition : Expr) (consequence alternative : Stmt) (part : Structured consequence)
      (part' : Structured alternative) : Structured (ifElse condition consequence alternative)
  | whileLoop (condition : Expr) (body : Stmt) (part : Structured body) :
      Structured (whileLoop condition body)
  | forLoop (target : Variable) (lower upper : Expr) (body : Stmt) (part : Structured body) :
      Structured (forLoop target lower upper body)

/-- A row reaches more ends when each of its parts does. -/
theorem interpretAll_extends {rounds more : Nat} {ss : List Stmt}
    (h : ∀ s ∈ ss, (s.interpret rounds).Extends (s.interpret more)) :
    (interpretAll rounds ss).Extends (interpretAll more ss) := by
  induction ss with
  | nil => exact .refl _
  | cons s ss ih =>
    have hs := h s List.mem_cons_self
    exact hs.andThen (ih fun t ht => h t (List.mem_cons_of_mem s ht))

/-- More rounds reach every end that fewer rounds reach. -/
theorem interpret_extends {s : Stmt} (hs : s.Structured) {rounds more : Nat}
    (hr : rounds ≤ more) : (s.interpret rounds).Extends (s.interpret more) := by
  induction hs with
  | block ss _ ih => exact interpretAll_extends ih
  | declaration | expression => exact .refl _
  | ifThen _ _ _ ih => exact .branch ih (.refl _)
  | ifElse _ _ _ _ _ ih ih' => exact .branch ih ih'
  | whileLoop _ _ _ ih => exact .loop ih hr
  | forLoop _ _ _ _ _ ih => exact .andThen (.refl _) (.loop (ih.andThen (.refl _)) hr)

end Stmt

end Bound

end Scriptlet
