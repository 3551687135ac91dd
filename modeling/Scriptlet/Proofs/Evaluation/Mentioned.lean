import Scriptlet.Proofs.Evaluation.Runs

/-!
# What a program mentions

A run sees no variables but those that occur in its program: on two memories that
agree on these, it takes the same steps and ends alike. Nor does it change any
variable to which the program gives no value, wherever it stops, and it never
takes the value of a variable away.
-/

namespace Scriptlet

namespace Bound

mutual

/-- The variables that occur in an expression, read or given a value. -/
def Expr.mentioned : Expr → List Variable
  | .literal _ | .error => []
  | .name target => [target]
  | .assignment target value => target :: value.mentioned
  | .unary _ operand => operand.mentioned
  | .binary left _ right => left.mentioned ++ right.mentioned
  | .call _ arguments => Expr.mentionedAll arguments

/-- The variables that occur in a row of expressions. -/
def Expr.mentionedAll : List Expr → List Variable
  | [] => []
  | e :: es => e.mentioned ++ Expr.mentionedAll es

end

mutual

/-- The variables that occur in a statement. -/
def Stmt.mentioned : Stmt → List Variable
  | .block statements => Stmt.mentionedAll statements
  | .declaration target initializer => target :: initializer.mentioned
  | .expression inner => inner.mentioned
  | .ifThen condition consequence => condition.mentioned ++ consequence.mentioned
  | .ifElse condition consequence alternative =>
    condition.mentioned ++ consequence.mentioned ++ alternative.mentioned
  | .whileLoop condition body => condition.mentioned ++ body.mentioned
  | .forLoop target lower upper body =>
    target :: lower.mentioned ++ upper.mentioned ++ body.mentioned
  | .gotoIf _ condition _ => condition.mentioned
  | .goto _ | .label _ => []

/-- The variables that occur in a row of statements. -/
def Stmt.mentionedAll : List Stmt → List Variable
  | [] => []
  | s :: ss => s.mentioned ++ Stmt.mentionedAll ss

end

end Bound

namespace Program

/-- The variables that occur in a program. -/
def mentioned (p : Program) : List Variable := p.flatMap Bound.Stmt.mentioned

/-- The variables to which a program gives values, in declarations and in
assignments. -/
def targets (p : Program) : List Variable :=
  p.flatMap fun s => s.sites.map Bound.Site.target

end Program

/-- Two memories have the same console and draws and the same entries for some
variables. -/
structure Memory.AgreeOn (vs : List Variable) (memory memory' : Memory) : Prop where
  entries : ∀ v ∈ vs, memory.store.get? v = memory'.store.get? v
  console : memory.console = memory'.console
  draws : memory.draws = memory'.draws

namespace Evaluating

/-- On memories that agree on some variables, an evaluation gives the same value
or fault and leaves memories that agree on them again. -/
def SeesOnly (vs : List Variable) {α : Type} (m : Evaluating α) : Prop :=
  ∀ memory memory', memory.AgreeOn vs memory' →
    (m.on memory).1 = (m.on memory').1 ∧ (m.on memory).2.AgreeOn vs (m.on memory').2

variable {α β : Type} {vs : List Variable} {m : Evaluating α} {f : α → Evaluating β}

theorem seesOnly_pure (a : α) : SeesOnly vs (pure a) := fun _ _ agree => ⟨rfl, agree⟩

theorem seesOnly_fail (fault : Fault) : SeesOnly vs (fail fault : Evaluating α) :=
  fun _ _ agree => ⟨rfl, agree⟩

theorem seesOnly_lift (result : Except Fault α) : SeesOnly vs (lift result) :=
  fun _ _ agree => ⟨rfl, agree⟩

/-- A sequence sees what its parts see. -/
theorem SeesOnly.bind (h : SeesOnly vs m) (h' : ∀ a, SeesOnly vs (f a)) :
    SeesOnly vs (m >>= f) := by
  intro memory memory' agree
  obtain ⟨same, behind⟩ := h memory memory' agree
  rw [on_bind, on_bind]
  rcases hm : m.on memory with ⟨fault | a, after⟩ <;>
    rcases hm' : m.on memory' with ⟨result, after'⟩ <;>
    rw [hm, hm'] at same behind <;> cases same
  · exact ⟨rfl, behind⟩
  · exact h' a after after' behind

/-- A read sees its variable. -/
theorem seesOnly_read {v : Variable} (hv : v ∈ vs) : SeesOnly vs (read v) := by
  intro memory memory' agree
  simp only [read, on_bind, on_memory, ← agree.entries v hv]
  cases memory.store.get? v with
  | none => exact ⟨rfl, agree⟩
  | some value => exact ⟨rfl, agree⟩

/-- A write sees nothing: behind it, its variable has the same value. -/
theorem seesOnly_write (v : Variable) (value : Value) : SeesOnly vs (write v value) := by
  intro memory memory' agree
  refine ⟨rfl, fun w hw => ?_, agree.console, agree.draws⟩
  show (memory.store.insert v value).get? w = (memory'.store.insert v value).get? w
  by_cases same : w = v
  · rw [same, Store.get?_insert_self, Store.get?_insert_self]
  · rw [Store.get?_insert_of_ne _ _ same, Store.get?_insert_of_ne _ _ same, agree.entries w hw]

/-- What works on console and draws alone sees no variable. -/
theorem seesOnly_of_store
    (h : ∀ store store' console draws, ∃ result console' draws',
      m.on ⟨store, console, draws⟩ = (result, ⟨store, console', draws'⟩) ∧
      m.on ⟨store', console, draws⟩ = (result, ⟨store', console', draws'⟩)) : SeesOnly vs m := by
  rintro ⟨store, console, draws⟩ ⟨store', _, _⟩ ⟨entries, rfl, rfl⟩
  obtain ⟨result, console', draws', hm, hm'⟩ := h store store' console draws
  rw [hm, hm']
  exact ⟨rfl, entries, rfl, rfl⟩

/-- A draw sees no variable. -/
theorem seesOnly_random (bound : Int32) : SeesOnly vs (random bound) := by
  unfold random
  split
  · exact seesOnly_pure 0
  · exact seesOnly_of_store fun _ _ _ _ => ⟨_, _, _, rfl, rfl⟩

/-- A call sees no variable. -/
theorem seesOnly_call (function : Function) (arguments : List Value) :
    SeesOnly vs (call function arguments) := by
  unfold call
  split
  · split
    · exact seesOnly_of_store fun _ _ _ _ => ⟨_, _, _, rfl, rfl⟩
    · exact seesOnly_fail _
  · split
    · exact seesOnly_of_store fun _ _ _ _ => ⟨_, _, _, rfl, rfl⟩
    · split
      · split
        · exact (seesOnly_random _).bind fun drawn => seesOnly_pure _
        · exact seesOnly_fail _
      · exact seesOnly_fail _

end Evaluating

namespace Bound

open Evaluating

variable {vs : List Variable}

mutual

/-- An expression sees the variables that occur in it. -/
theorem Expr.seesOnly (e : Expr) (h : e.mentioned ⊆ vs) : SeesOnly vs e.evaluate := by
  cases e with
  | literal value => exact seesOnly_pure value
  | name target => exact seesOnly_read (h List.mem_cons_self)
  | assignment target value =>
    have part := value.seesOnly (List.Subset.trans (List.subset_cons_self _ _) h)
    exact part.bind fun result => (seesOnly_write target result).bind fun _ => seesOnly_pure result
  | unary operator operand =>
    have part := operand.seesOnly h
    exact part.bind fun value => seesOnly_lift _
  | binary left operator right =>
    have part := left.seesOnly (List.Subset.trans (List.subset_append_left _ _) h)
    have part' := right.seesOnly (List.Subset.trans (List.subset_append_right _ _) h)
    rw [Expr.evaluate]
    refine part.bind fun leftValue => ?_
    cases operator.decisive? with
    | none => exact part'.bind fun rightValue => seesOnly_lift _
    | some decisive =>
      refine (seesOnly_lift _).bind fun truth => ?_
      split
      · exact seesOnly_pure leftValue
      · exact part'.bind fun rightValue => (seesOnly_lift _).bind fun truth' => seesOnly_pure _
  | call function arguments =>
    have parts := Expr.seesOnlyAll arguments h
    exact parts.bind fun values => seesOnly_call function values
  | error => exact seesOnly_fail _

/-- A row of expressions sees the variables that occur in it. -/
theorem Expr.seesOnlyAll (es : List Expr) (h : Expr.mentionedAll es ⊆ vs) :
    SeesOnly vs (Expr.evaluateAll es) := by
  cases es with
  | nil => exact seesOnly_pure []
  | cons e es =>
    have first := e.seesOnly (List.Subset.trans (List.subset_append_left _ _) h)
    have others := Expr.seesOnlyAll es (List.Subset.trans (List.subset_append_right _ _) h)
    exact first.bind fun value => others.bind fun values => seesOnly_pure _

end

end Bound

/-- Two runs have come equally far, to memories that agree on some variables. -/
inductive Progress.AgreeOn (vs : List Variable) : Progress → Progress → Prop where
  | halted (result : Except Fault Value) {memory memory' : Memory}
      (agree : memory.AgreeOn vs memory') :
      AgreeOn vs (.halted result memory) (.halted result memory')
  | running (index : Nat) (last : Value) {memory memory' : Memory}
      (agree : memory.AgreeOn vs memory') :
      AgreeOn vs (.running ⟨index, last, memory⟩) (.running ⟨index, last, memory'⟩)

namespace Machine

open Scriptlet.Bound Evaluating

variable {vs : List Variable} {p : Program} {memory memory' : Memory}

/-- What a statement does depends on the variables that occur in it. -/
theorem seesOnly_execute {s : Stmt} (h : s.mentioned ⊆ vs) (index : Nat) (last : Value) :
    SeesOnly vs (execute p index last s) := by
  cases s with
  | declaration target initializer =>
    have value := initializer.seesOnly (List.Subset.trans (List.subset_cons_self _ _) h)
    exact value.bind fun value => (seesOnly_write target value).bind fun _ => seesOnly_pure _
  | expression inner => exact (inner.seesOnly h).bind fun value => seesOnly_pure _
  | goto target => exact (seesOnly_lift _).bind fun index => seesOnly_pure _
  | gotoIf target condition expected =>
    refine (condition.seesOnly h).bind fun value => (seesOnly_lift _).bind fun outcome => ?_
    split
    · exact (seesOnly_lift _).bind fun index => seesOnly_pure _
    · exact seesOnly_pure _
  | label => exact seesOnly_pure _
  | block | ifThen | ifElse | whileLoop | forLoop => exact seesOnly_fail _

/-- A step depends on the variables that occur in the program. -/
theorem agreeOn_step (h : p.mentioned ⊆ vs) (agree : memory.AgreeOn vs memory') (index : Nat)
    (last : Value) :
    (step p ⟨index, last, memory⟩).AgreeOn vs (step p ⟨index, last, memory'⟩) := by
  cases hs : p[index]? with
  | none =>
    simp only [step, hs]
    exact .halted _ agree
  | some s =>
    have occur : s.mentioned ⊆ vs := fun v hv =>
      h (List.mem_flatMap_of_mem (List.mem_of_getElem? hs) hv)
    obtain ⟨same, behind⟩ := seesOnly_execute (p := p) occur index last memory memory' agree
    simp only [step, hs]
    rcases hm : (execute p index last s).on memory with ⟨fault | ⟨next, value⟩, after⟩ <;>
      rcases hm' : (execute p index last s).on memory' with ⟨result, after'⟩ <;>
      rw [hm, hm'] at same behind <;> cases same
    · exact .halted _ behind
    · exact .running next value behind

/-- A run depends on the variables that occur in the program. -/
theorem agreeOn_advance (h : p.mentioned ⊆ vs) (agree : memory.AgreeOn vs memory') (index : Nat)
    (last : Value) (steps : Nat) :
    (advance p steps ⟨index, last, memory⟩).AgreeOn vs
      (advance p steps ⟨index, last, memory'⟩) := by
  induction steps generalizing memory memory' index last with
  | zero => exact .running index last agree
  | succ steps ih =>
    have first := agreeOn_step h agree index last
    rw [advance, advance]
    generalize step p ⟨index, last, memory⟩ = progress at first ⊢
    generalize step p ⟨index, last, memory'⟩ = progress' at first ⊢
    cases first with
    | halted result behind => exact .halted result behind
    | running next value behind => exact ih behind next value

end Machine

namespace Program

open Scriptlet.Bound Machine

/-- A run touches only what its program mentions. On two memories that agree on
the variables of the program it comes to the same end, and the memories that it
leaves agree on them again; variables to which the program gives no value keep
their entries, or keep having none, however far the run comes; and no variable
loses its value. -/
theorem run_touches_mentioned (p : Program) :
    (∀ memory memory', memory.AgreeOn p.mentioned memory' → ∀ steps result after,
      p.run steps memory = .halted result after →
        ∃ after', p.run steps memory' = .halted result after' ∧
          after.AgreeOn p.mentioned after') ∧
    (∀ memory steps v, v ∉ p.targets →
      (p.run steps memory).memory.store.get? v = memory.store.get? v) ∧
    ∀ memory steps v, memory.store.Has v → (p.run steps memory).memory.store.Has v := by
  refine ⟨?_, ?_, ?_⟩
  · intro memory memory' agree steps result after ends
    have runs := agreeOn_advance (List.Subset.refl p.mentioned) agree 0 .void steps
    rw [show advance p steps ⟨0, .void, memory⟩ = .halted result after from ends] at runs
    generalize hrun : advance p steps ⟨0, .void, memory'⟩ = progress' at runs
    cases runs with
    | halted _ behind => exact ⟨_, hrun, behind⟩
  · intro memory steps v untouched
    refine keeps_advance (P := (·.get? v = memory.store.get? v)) (fun s hs => ?_) steps rfl
    refine outlasts_get? (fun site hsite same => untouched ?_) _
    exact List.mem_flatMap.2 ⟨s, hs, List.mem_map.2 ⟨site, hsite, same⟩⟩
  · intro memory steps v has
    exact keeps_advance (P := (·.Has v)) (fun s _ => outlasts_has v s.sites) steps has

/-- Gives one variable a value in a condition and another one in an operand of a
division that fails. -/
def hiddenSample : Program :=
  [.gotoIf ⟨0, "Label1"⟩ (.assignment ⟨1, "ready", .bool, false⟩ (.name ⟨0, "given", .bool, true⟩))
      false,
    .expression (.binary (.assignment ⟨2, "count", .int, false⟩ (.literal (.int 3)))
      ⟨.slash, .division, .int, .int, .int⟩ (.literal (.int 0))),
    .label ⟨0, "Label1"⟩]

/-- A memory in which the variable that the sample reads has a value. -/
def givenSample : Memory :=
  .start ⟨[(⟨0, "given", .bool, true⟩, .bool true)]⟩ ["unread"] (.ofSeed 0)

/-- A memory in which a variable has a value besides that the sample does not
mention. -/
def besidesSample : Memory :=
  .start ⟨[(⟨3, "besides", .int, false⟩, .int 5), (⟨0, "given", .bool, true⟩, .bool true)]⟩
    ["unread"] (.ofSeed 0)

/-- One more entry changes nothing about a run that fails, and the run leaves it as
it is. -/
theorem run_touches_mentioned_hiddenSample :
    besidesSample.AgreeOn hiddenSample.mentioned givenSample ∧
    (∃ after after', hiddenSample.run 2 besidesSample = .halted (.error .divisionByZero) after ∧
      hiddenSample.run 2 givenSample = .halted (.error .divisionByZero) after' ∧
      after.AgreeOn hiddenSample.mentioned after') ∧
    (hiddenSample.run 2 besidesSample).memory.store.get? ⟨3, "besides", .int, false⟩ =
      some (.int 5) ∧
    (hiddenSample.run 2 besidesSample).memory.store.Has ⟨0, "given", .bool, true⟩ := by
  obtain ⟨runs, frame, keeps⟩ := run_touches_mentioned hiddenSample
  have agree : besidesSample.AgreeOn hiddenSample.mentioned givenSample := ⟨by decide, rfl, rfl⟩
  obtain ⟨after', ends', behind⟩ := runs _ _ agree 2 (.error .divisionByZero) _ rfl
  have untouched := frame besidesSample 2 ⟨3, "besides", .int, false⟩ (by decide)
  have kept := keeps besidesSample 2 ⟨0, "given", .bool, true⟩ ⟨.bool true, rfl⟩
  exact ⟨agree, ⟨_, after', rfl, ends', behind⟩, untouched, kept⟩

end Program

end Scriptlet
