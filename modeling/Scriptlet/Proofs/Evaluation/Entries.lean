import Scriptlet.Proofs.Declaring.Sites
import Scriptlet.Proofs.Evaluation.Ensures

/-!
# What evaluations do to the store

Evaluations change the store at the places of a tree only, where they give a
variable a value. So whatever the writes at these places leave true stays true,
whether an evaluation ends with a value or with a fault. In particular a
variable that has a value keeps having one: evaluations replace values and add
entries, but never remove an entry.
-/

namespace Scriptlet

namespace Store

/-- A variable has a value. -/
def Has (s : Store) (v : Variable) : Prop := ∃ value, s.get? v = some value

variable {s : Store} {v w : Variable} {value : Value}

/-- A variable has a value behind a write to it. -/
theorem has_insert_self : (s.insert v value).Has v := ⟨value, get?_insert_self s v value⟩

/-- A write to any variable takes no value away. -/
theorem Has.insert (h : s.Has v) : (s.insert w value).Has v := by
  by_cases hvw : v = w
  · exact hvw ▸ has_insert_self
  · obtain ⟨old, hold⟩ := h
    exact ⟨old, by rw [get?_insert_of_ne s value hvw, hold]⟩

end Store

namespace Bound

open Evaluating Meaning

/-- A property of stores outlasts the writes at some places. -/
def Outlasts (P : Store → Prop) (sites : List Site) : Prop :=
  ∀ site ∈ sites, ∀ (s : Store) (value : Value), P s → P (s.insert site.target value)

/-- An evaluation keeps a property of stores, whether it fails or not. -/
abbrev Keeps (P : Store → Prop) {α : Type} (m : Evaluating α) : Prop :=
  m.Ensures (fun memory => P memory.store) (fun _ memory => P memory.store)
    (fun _ memory => P memory.store)

variable {P : Store → Prop} {sites sites' : List Site}

theorem Outlasts.left (h : Outlasts P (sites ++ sites')) : Outlasts P sites :=
  fun site hs => h site (List.mem_append_left sites' hs)

theorem Outlasts.right (h : Outlasts P (sites ++ sites')) : Outlasts P sites' :=
  fun site hs => h site (List.mem_append_right sites hs)

theorem keeps_pure {α : Type} (a : α) : Keeps P (pure a : Evaluating α) := fun _ h => h

theorem keeps_lift {α : Type} (result : Except Fault α) : Keeps P (lift result) := by
  intro memory h
  cases result <;> exact h

/-- A write keeps what outlasts it. -/
theorem keeps_write {site : Site} (h : Outlasts P [site]) (value : Value) :
    Keeps P (write site.target value) :=
  fun memory hm => h site List.mem_cons_self memory.store value hm

/-- A read changes nothing. -/
theorem keeps_read (v : Variable) : Keeps P (read v) :=
  ensures_read (fun _ _ h _ => h) (fun _ h _ => h)

/-- A call changes no variable. -/
theorem keeps_call (f : Function) (arguments : List Value) :
    Keeps P (Evaluating.call f arguments) := by
  intro memory h
  have calls := ensures_call f arguments memory.store
  rcases hc : (Evaluating.call f arguments).on memory with ⟨fault | value, behind⟩
  · have same := calls.of_error rfl hc
    show P behind.store
    rw [same.1]
    exact h
  · have same := calls.of_ok rfl hc
    show P behind.store
    rw [same]
    exact h

mutual

/-- An expression keeps what outlasts its writes. -/
theorem Expr.keeps {isSkippable : Bool} (e : Expr) (h : Outlasts P (e.sites isSkippable)) :
    Keeps P e.evaluate := by
  cases e with
  | literal value => exact keeps_pure value
  | name target => exact keeps_read target
  | assignment target value =>
    have part := value.keeps h.left
    have stores (result : Value) := keeps_write h.right result
    exact part.bind fun result => (stores result).bind fun _ => keeps_pure result
  | unary o operand =>
    have part := operand.keeps h
    exact part.bind fun value => keeps_lift _
  | binary left o right =>
    have part := left.keeps h.left
    have part' := right.keeps h.right
    rw [Expr.evaluate]
    refine part.bind fun leftValue => ?_
    cases o.decisive? with
    | none => exact part'.bind fun rightValue => keeps_lift _
    | some decisive =>
      refine (keeps_lift _).bind fun b => ?_
      split
      · exact keeps_pure leftValue
      · exact part'.bind fun rightValue => (keeps_lift _).bind fun b => keeps_pure _
  | call f arguments =>
    have parts := Expr.keepsAll arguments h
    exact parts.bind fun values => keeps_call f values
  | error => exact fun _ h => h

/-- A row of expressions keeps what outlasts its writes. -/
theorem Expr.keepsAll {isSkippable : Bool} (es : List Expr)
    (h : Outlasts P (Expr.sitesAll isSkippable es)) : Keeps P (Expr.evaluateAll es) := by
  cases es with
  | nil => exact keeps_pure []
  | cons e es =>
    have first := e.keeps h.left
    have others := Expr.keepsAll es h.right
    exact first.bind fun value => others.bind fun values => keeps_pure _

end

/-- A test keeps what outlasts its writes. -/
theorem Expr.keeps_holds (e : Expr) (h : Outlasts P (e.sites false)) : Keeps P e.holds :=
  (e.keeps h).bind fun _ => keeps_lift _

namespace Stmt

/-- A declaration keeps what outlasts its writes. -/
theorem keeps_declare {target : Variable} {e : Expr}
    (h : Outlasts P (e.sites false ++ [⟨target, false⟩])) : Keeps P (declare target e) :=
  (e.keeps h.left).bind fun value => (keeps_write h.right value).bind fun _ => keeps_pure value

/-- The test of a counting loop keeps what outlasts the writes of its bound. -/
theorem keeps_counts (target : Variable) {upper : Expr} (h : Outlasts P (upper.sites false)) :
    Keeps P (counts target upper) :=
  (keeps_read target).bind fun _ => (upper.keeps h).bind fun _ => (keeps_lift _).bind fun _ =>
    (keeps_lift _).bind fun _ => keeps_pure _

/-- The step of a counting loop keeps what outlasts a write to its variable. -/
theorem keeps_increment {site : Site} (h : Outlasts P [site]) :
    Keeps P (increment site.target) :=
  (keeps_read _).bind fun _ => (keeps_lift _).bind fun _ => (keeps_write h _).bind
    fun _ => keeps_pure _

mutual

/-- A statement keeps what outlasts its writes. -/
theorem keeps (rounds : Nat) (s : Stmt) (h : Outlasts P s.sites) :
    (s.interpret rounds).Ensures (fun memory => P memory.store) (fun memory => P memory.store)
      (fun _ memory => P memory.store) := by
  cases s with
  | block statements => exact keepsAll rounds statements h
  | declaration target initializer => exact ensures_ofEvaluating (keeps_declare h)
  | expression inner => exact ensures_ofEvaluating (inner.keeps h)
  | ifThen condition consequence =>
    have test := condition.keeps_holds h.left
    exact ensures_branch test (consequence.keeps rounds h.right) (ensures_skip fun _ hm => hm)
  | ifElse condition consequence alternative =>
    have test := condition.keeps_holds h.left
    have sides := h.right
    exact ensures_branch test (consequence.keeps rounds sides.left)
      (alternative.keeps rounds sides.right)
  | whileLoop condition body =>
    have test := condition.keeps_holds h.left
    exact ensures_loop test (body.keeps rounds h.right) rounds
  | forLoop target lower upper body =>
    have behindLower : Outlasts P (upper.sites false ++ ([⟨target, false⟩] ++ body.sites)) :=
      h.right
    have counter : Outlasts P [⟨target, false⟩] := behindLower.right.left
    have stores (value : Value) := keeps_write counter value
    have first := ensures_ofEvaluating
      ((lower.keeps h.left).bind fun value => (stores value).bind fun _ => keeps_pure value)
    have test := keeps_counts target behindLower.left
    have step := ensures_ofEvaluating (keeps_increment counter)
    have round := (body.keeps rounds behindLower.right.right).andThen step
    exact first.andThen (ensures_loop test round rounds)
  | goto | gotoIf | label => exact ensures_endless

/-- A row of statements keeps what outlasts its writes. -/
theorem keepsAll (rounds : Nat) (ss : List Stmt) (h : Outlasts P (sitesAll ss)) :
    (interpretAll rounds ss).Ensures (fun memory => P memory.store)
      (fun memory => P memory.store) (fun _ memory => P memory.store) := by
  cases ss with
  | nil => exact ensures_skip fun _ hm => hm
  | cons s ss => exact (s.keeps rounds h.left).andThen (keepsAll rounds ss h.right)

end

end Stmt

/-- A variable has a value in a memory. -/
abbrev HasEntry (v : Variable) (memory : Memory) : Prop := memory.store.Has v

/-- No write takes a value of a variable away. -/
theorem outlasts_has (v : Variable) (sites : List Site) : Outlasts (·.Has v) sites :=
  fun _ _ _ _ has => has.insert

end Bound

end Scriptlet
