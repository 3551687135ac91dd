import Scriptlet.Proofs.Lowering.Layout

/-!
# Lowering keeps the meaning

The code of a structured statement realizes the meaning of the statement
wherever it stands in a program that places no label twice. The flat program of
a statement is its code, so a run of it is over exactly when the structured
account of the statement has an end, and both end alike.
-/

namespace Scriptlet.Bound

open Evaluating Machine Meaning Program

/-- The condition that a counting loop is spelled out with tests whether the
variable has passed the bound. -/
theorem holds_countingCondition (target : Variable) (upper : Expr) :
    (countingCondition target upper).holds = Stmt.counts target upper := by
  have spelling : BinaryOperator.display ⟨.lessEquals, .lessOrEqual, .int, .int, .bool⟩ = "<=" :=
    rfl
  simp only [Expr.holds, countingCondition, Stmt.counts, Expr.evaluate, BinaryOperator.decisive?,
    BinaryOperator.apply, BinaryOperator.onInts, spelling, bind_assoc]
  congr 1
  funext current
  congr 1
  funext bound
  cases current <;> cases bound <;> rfl

namespace Stmt

/-- The step that a counting loop is spelled out with adds one to the variable. -/
theorem interpret_countingStep (target : Variable) (rounds : Nat) :
    (countingStep target).interpret rounds = ofEvaluating (increment target) := by
  have spelling : BinaryOperator.display ⟨.plus, .addition, .int, .int, .int⟩ = "+" := rfl
  simp only [countingStep, interpret, increment, Expr.evaluate, BinaryOperator.decisive?,
    BinaryOperator.apply, BinaryOperator.onInts, spelling, bind_assoc, pure_bind]
  congr 2
  funext current
  cases current <;> rfl

/-- A counting loop, spelled out as a loop with a condition. -/
def spelledOut (target : Variable) (lower upper : Expr) (body : Stmt) : Stmt :=
  block [declaration target lower,
    whileLoop (countingCondition target upper) (block [body, countingStep target])]

/-- A counting loop means what it means when it is spelled out. -/
theorem interpret_spelledOut (target : Variable) (lower upper : Expr) (body : Stmt)
    (rounds : Nat) : (spelledOut target lower upper body).interpret rounds =
      (forLoop target lower upper body).interpret rounds := by
  simp only [spelledOut, interpret, interpretAll, interpret_countingStep, holds_countingCondition,
    andThen_skip]

/-- A counting loop has the code that it has when it is spelled out. -/
theorem code_spelledOut (fresh : Nat → Label) (n : Nat) (target : Variable) (lower upper : Expr)
    (body : Stmt) : (spelledOut target lower upper body).code fresh n =
      (forLoop target lower upper body).code fresh n := by
  simp only [spelledOut, code, codeAll, countingStep, labelCount, Nat.add_zero, List.append_nil,
    List.singleton_append]

/-- The indices from one on and in front of another. -/
def Between (i j : Nat) : Nat → Prop := fun k => i ≤ k ∧ k < j

/-- Wherever the code of a statement stands in the program, it realizes what the
statement means. -/
def RealizedIn (p : Program) (fresh : Nat → Label) (s : Stmt) : Prop :=
  ∀ i n, p.Holds i (s.code fresh n) →
    p.Realizes (Between i (i + (s.code fresh n).length)) i (i + (s.code fresh n).length)
      (fun rounds => s.interpret rounds)

variable {p : Program} {fresh : Nat → Label}

/-- The code of a declaration does what it means. -/
theorem realizedIn_declaration (target : Variable) (initializer : Expr) :
    RealizedIn p fresh (declaration target initializer) := by
  intro i n h
  have hs := (holds_cons_iff.1 h).1
  refine realizes_ofEvaluating ⟨Nat.le_refl i, Nat.lt_succ_self i⟩ fun last memory => ?_
  simp only [step, hs, execute, declare, on_bind]
  rcases initializer.evaluate.on memory with ⟨fault | value, after⟩ <;> rfl

/-- The code of an expression does what it means. -/
theorem realizedIn_expression (inner : Expr) : RealizedIn p fresh (expression inner) := by
  intro i n h
  have hs := (holds_cons_iff.1 h).1
  refine realizes_ofEvaluating ⟨Nat.le_refl i, Nat.lt_succ_self i⟩ fun last memory => ?_
  simp only [step, hs, execute, on_bind]
  rcases inner.evaluate.on memory with ⟨fault | value, after⟩ <;> rfl

/-- The code of a block does what the block means if the code of its parts does
so. -/
theorem realizedIn_block {ss : List Stmt} (hs : ∀ s ∈ ss, s.Structured)
    (ih : ∀ s ∈ ss, RealizedIn p fresh s) : RealizedIn p fresh (block ss) := by
  induction ss with
  | nil => intro i n _; exact realizes_skip p _ i
  | cons s ss ihs =>
    intro i n h
    have hcode : (block (s :: ss)).code fresh n =
        s.code fresh n ++ (block ss).code fresh (n + s.labelCount) := by
      simp only [code, codeAll]
    rw [hcode, holds_append_iff] at h
    have hsub : ∀ t ∈ ss, t ∈ s :: ss := fun t ht => List.mem_cons_of_mem s ht
    have tailParts : ∀ t ∈ ss, t.Structured := fun t ht => hs t (hsub t ht)
    have head := ih s List.mem_cons_self i n h.1
    have tail := ihs tailParts (fun t ht => ih t (hsub t ht)) _ _ h.2
    rw [hcode, List.length_append, ← Nat.add_assoc]
    refine (head.widen ?_).andThen (tail.widen ?_) ?_ ?_
    · exact fun k hk => ⟨hk.1, by have := hk.2; omega⟩
    · exact fun k hk => ⟨by have := hk.1; omega, hk.2⟩
    · exact interpret_extends (hs s List.mem_cons_self)
    · exact interpret_extends (.block ss tailParts)

/-- The code of a branch without an alternative does what the branch means. -/
theorem realizedIn_ifThen (hp : p.labels.Nodup) (condition : Expr) {consequence : Stmt}
    (ih : RealizedIn p fresh consequence) :
    RealizedIn p fresh (ifThen condition consequence) := by
  intro i n h
  have hlength : i + (code fresh n (ifThen condition consequence)).length =
      i + 1 + (consequence.code fresh (n + 1)).length + 1 := by
    simp only [code, List.cons_append, List.length_cons, List.length_append, List.length_nil]
    omega
  rw [hlength]
  simp only [code, List.cons_append, holds_cons_iff, holds_append_iff] at h
  obtain ⟨htest, hyes, hfinish, -⟩ := h
  have yes := (ih _ _ hyes).leave (step_label hfinish)
  refine realizes_branch (tests_gotoIf hp htest hfinish) ⟨by omega, by omega⟩ (yes.widen ?_)
    (realizes_skip p _ _)
  exact fun k hk => ⟨by have := hk.1; omega, by have := hk.2; omega⟩

/-- The code of a branch with an alternative does what the branch means. -/
theorem realizedIn_ifElse (hp : p.labels.Nodup) (condition : Expr)
    {consequence alternative : Stmt} (ih : RealizedIn p fresh consequence)
    (ih' : RealizedIn p fresh alternative) :
    RealizedIn p fresh (ifElse condition consequence alternative) := by
  intro i n h
  have hlength : i + (code fresh n (ifElse condition consequence alternative)).length =
      i + 1 + (consequence.code fresh (n + 2)).length + 1 + 1 +
        (alternative.code fresh (n + 2 + consequence.labelCount)).length + 1 := by
    simp only [code, List.cons_append, List.append_assoc, List.nil_append, List.length_cons,
      List.length_append, List.length_nil]
    omega
  rw [hlength]
  simp only [code, List.cons_append, List.append_assoc, List.nil_append, holds_cons_iff,
    holds_append_iff] at h
  obtain ⟨htest, hyes, hgoto, hotherwise, hno, hfinish, -⟩ := h
  have yes := (ih _ _ hyes).leave (step_goto hp hgoto hfinish)
  have no := (ih' _ _ hno).leave (step_label hfinish)
  refine realizes_branch (tests_gotoIf hp htest hotherwise) ⟨by omega, by omega⟩ (yes.widen ?_)
    (no.widen ?_)
  · exact fun k hk => ⟨by have := hk.1; omega, by have := hk.2; omega⟩
  · exact fun k hk => ⟨by have := hk.1; omega, by have := hk.2; omega⟩

/-- The code of a loop goes round its body as the loop does. -/
theorem realizedIn_whileLoop (hp : p.labels.Nodup) (condition : Expr) {body : Stmt}
    (hs : body.Structured) (ih : RealizedIn p fresh body) :
    RealizedIn p fresh (whileLoop condition body) := by
  intro i n h
  have hlength : i + (code fresh n (whileLoop condition body)).length =
      i + 1 + 1 + (body.code fresh (n + 3)).length + 1 + 1 + 1 := by
    simp only [code, loopCode, List.length_cons, List.length_append, List.length_nil]
    omega
  rw [hlength]
  simp only [code, loopCode, List.cons_append, List.nil_append, holds_cons_iff,
    holds_append_iff] at h
  obtain ⟨hgoto, hbody, hround, hcheck, htest, hfinish, -⟩ := h
  have round := (ih _ _ hround).leave (step_label hcheck)
  refine (Realizes.leave ?_ (step_label hfinish)).enter (step_goto hp hgoto hcheck)
  refine realizes_loop (tests_gotoIf hp htest hbody) ⟨by omega, by omega⟩ (round.widen ?_)
    (interpret_extends hs)
  exact fun k hk => ⟨by have := hk.1; omega, by have := hk.2; omega⟩

/-- The code of a counting loop counts as the loop does. -/
theorem realizedIn_forLoop (hp : p.labels.Nodup) (target : Variable) (lower upper : Expr)
    {body : Stmt} (hs : body.Structured) (ih : RealizedIn p fresh body) :
    RealizedIn p fresh (forLoop target lower upper body) := by
  have roundParts : ∀ s ∈ [body, countingStep target], s.Structured := by
    simpa using ⟨hs, .expression _⟩
  have round : RealizedIn p fresh (block [body, countingStep target]) := by
    refine realizedIn_block roundParts ?_
    simpa using ⟨ih, realizedIn_expression _⟩
  have loopParts : ∀ s ∈ [declaration target lower,
      whileLoop (countingCondition target upper) (block [body, countingStep target])],
      s.Structured := by
    simpa using ⟨.declaration _ _, .whileLoop _ _ (.block _ roundParts)⟩
  have spelled : RealizedIn p fresh (spelledOut target lower upper body) := by
    refine realizedIn_block loopParts ?_
    simpa using ⟨realizedIn_declaration _ _,
      realizedIn_whileLoop hp _ (.block _ roundParts) round⟩
  intro i n h
  simpa only [code_spelledOut, interpret_spelledOut] using
    spelled i n (by rwa [code_spelledOut])

/-- The code of a structured statement realizes its meaning wherever it stands
in a program that places no label twice. -/
theorem realizedIn_of_structured (hp : p.labels.Nodup) (fresh : Nat → Label) {s : Stmt}
    (hs : s.Structured) : RealizedIn p fresh s := by
  induction hs with
  | block ss hss ih => exact realizedIn_block hss ih
  | declaration target initializer => exact realizedIn_declaration target initializer
  | expression inner => exact realizedIn_expression inner
  | ifThen condition _ _ ih => exact realizedIn_ifThen hp condition ih
  | ifElse condition _ _ _ _ ih ih' => exact realizedIn_ifElse hp condition ih ih'
  | whileLoop condition _ hs ih => exact realizedIn_whileLoop hp condition hs ih
  | forLoop target lower upper _ hs ih => exact realizedIn_forLoop hp target lower upper hs ih

/-- The flat program of a structured statement realizes what it means. -/
theorem realizes_lower {s : Stmt} (hs : s.Structured) :
    s.lower.Realizes (Between 0 s.lower.length) 0 s.lower.length
      (fun rounds => s.interpret rounds) := by
  have h := realizedIn_of_structured (nodup_labels_lower hs) (freshLabel s.labelBound) hs 0 0
    (holds_self s.lower)
  rwa [Nat.zero_add] at h

/-- A run of the flat program of a structured statement is over with a result
exactly if the statement comes to that end. -/
theorem exists_run_iff_interpret {s : Stmt} (hs : s.Structured) (memory after : Memory)
    (result : Except Fault Value) :
    (∃ steps, s.lower.run steps memory = .halted result after) ↔
      ∃ rounds, s.interpret rounds .void memory = some (result, after) := by
  have halts : ∀ {rounds : Nat} {ending : Except Fault Value × Memory},
      s.interpret rounds .void memory = some ending →
      ∃ steps, s.lower.run steps memory = .halted ending.1 ending.2 := by
    intro rounds ending h
    have arrives := (realizes_lower hs).arrives h
    rcases ending with ⟨fault | value, behind⟩
    · obtain ⟨failing, hr, -, hfail⟩ := arrives
      exact hr.halts hfail
    · exact arrives.halts (by simp [step])
  constructor
  · rintro ⟨steps, hrun⟩
    obtain ⟨rounds, ending, h⟩ := (realizes_lower hs).settles ⟨result, after, hrun⟩
    obtain ⟨steps', hrun'⟩ := halts h
    obtain ⟨hresult, hafter⟩ := halted_unique hrun' hrun
    exact ⟨rounds, by rw [h, ← hresult, ← hafter]⟩
  · rintro ⟨rounds, h⟩
    exact halts h

/-- Lowering keeps the meaning. On every memory, a run of the flat program of a
structured statement is over after some number of steps if and only if the
statement comes to an end after some number of rounds, and then both give the
same value or fault and leave the same memory: store, printed lines, inputs and
draws. -/
theorem lower_keeps_meaning {s : Stmt} (hs : s.Structured) (memory : Memory) :
    ((∃ steps result after, s.lower.run steps memory = .halted result after) ↔
      ∃ rounds ending, s.interpret rounds .void memory = some ending) ∧
    ∀ steps rounds result after ending, s.lower.run steps memory = .halted result after →
      s.interpret rounds .void memory = some ending → ending = (result, after) := by
  refine ⟨⟨?_, ?_⟩, ?_⟩
  · rintro ⟨steps, result, after, hrun⟩
    obtain ⟨rounds, h⟩ := (exists_run_iff_interpret hs memory after result).1 ⟨steps, hrun⟩
    exact ⟨rounds, _, h⟩
  · rintro ⟨rounds, ⟨result, after⟩, h⟩
    obtain ⟨steps, hrun⟩ := (exists_run_iff_interpret hs memory after result).2 ⟨rounds, h⟩
    exact ⟨steps, result, after, hrun⟩
  · rintro steps rounds result after ⟨result', after'⟩ hrun h
    obtain ⟨steps', hrun'⟩ := (exists_run_iff_interpret hs memory after' result').2 ⟨rounds, h⟩
    obtain ⟨rfl, rfl⟩ := halted_unique hrun' hrun
    rfl

/-- Prints a line in each of two rounds and then divides by zero. -/
def printingSample : Stmt :=
  block [
    forLoop ⟨0, "i", .int, true⟩ (.literal (.int 1)) (.literal (.int 2))
      (expression (.call .print [.literal (.string "round")])),
    expression (.binary (.literal (.int 1)) ⟨.slash, .division, .int, .int, .int⟩
      (.literal (.int 0)))]

/-- Two rounds of a counting loop run as lowered code, up to the fault behind. -/
theorem lower_keeps_meaning_printingSample :
    printingSample.Structured ∧ ∃ steps after,
      printingSample.lower.run steps (.start .empty ["unread"] (.ofSeed 0)) =
        .halted (.error .divisionByZero) after ∧
      after.console = ⟨["unread"], #["round", "round"]⟩ := by
  have structured : printingSample.Structured := by
    refine .block _ fun s hs => ?_
    simp only [List.mem_cons, List.not_mem_nil, or_false] at hs
    rcases hs with rfl | rfl
    · exact .forLoop _ _ _ _ (.expression _)
    · exact .expression _
  obtain ⟨ends, agree⟩ := lower_keeps_meaning structured (.start .empty ["unread"] (.ofSeed 0))
  obtain ⟨steps, result, after, hrun⟩ := ends.2 ⟨3, _, rfl⟩
  cases agree steps 3 result after _ hrun rfl
  exact ⟨structured, steps, _, hrun, rfl⟩

end Stmt

end Scriptlet.Bound
