import Scriptlet.Proofs.Evaluation.Ensures
import Scriptlet.Proofs.Typing.WellTyped

/-!
# Values have the types of their expressions

On a store in which every variable has a value of its own type, a well-typed
expression gives a value of its static type and leaves such a store. The only
faults it can run into are those of a division and a variable without a value.
-/

namespace Scriptlet

/-- The faults that a well-typed program can run into. -/
def Fault.Permitted : Fault → Prop
  | .divisionByZero | .overflow _ | .missingVariable _ => True
  | _ => False

/-- Every value in a store has the type of its variable. -/
def Store.Typed (s : Store) : Prop := ∀ entry ∈ s.entries, entry.2.type = entry.1.type

namespace Store

theorem typed_empty : empty.Typed := fun _ h => absurd h List.not_mem_nil

/-- A variable has a value of its type. -/
theorem Typed.type_of_get? {s : Store} (h : s.Typed) {v : Variable} {value : Value}
    (hv : s.get? v = some value) : value.type = v.type := by
  rw [get?, Option.map_eq_some_iff] at hv
  obtain ⟨entry, found, rfl⟩ := hv
  have hname : entry.1 = v := by simpa using List.find?_some found
  rw [← hname]
  exact h entry (List.mem_of_find?_eq_some found)

/-- An entry behind a write is the one written or an entry from before. -/
theorem mem_insertInto {v : Variable} {value : Value} {entries : List (Variable × Value)}
    {entry : Variable × Value} (h : entry ∈ insertInto v value entries) :
    entry = (v, value) ∨ entry ∈ entries := by
  induction entries with
  | nil => exact .inl (List.mem_singleton.1 h)
  | cons first rest ih =>
    rw [insertInto] at h
    split at h
    · rcases List.mem_cons.1 h with h | h
      · exact .inl h
      · exact .inr (List.mem_cons_of_mem _ h)
    · rcases List.mem_cons.1 h with rfl | h
      · exact .inr List.mem_cons_self
      · rcases ih h with h | h
        · exact .inl h
        · exact .inr (List.mem_cons_of_mem _ h)

/-- A variable may be given a value of its type. -/
theorem Typed.insert {s : Store} (h : s.Typed) {v : Variable} {value : Value}
    (fits : value.type = v.type) : (s.insert v value).Typed := by
  intro entry hmem
  rcases mem_insertInto hmem with rfl | hmem
  · exact fits
  · exact h entry hmem

end Store

/-- A division of integers gives an integer or one of its own faults. -/
theorem BinaryOperator.divide_ints (o : BinaryOperator) (a b : Int32) :
    (∃ value, o.divide (.int a) (.int b) = .ok value ∧ value.type = .int) ∨
      ∃ fault : Fault, o.divide (.int a) (.int b) = .error fault ∧ fault.Permitted := by
  have parts : o.divide (.int a) (.int b) =
      if b = 0 then .error .divisionByZero
      else if a = Int32.minValue ∧ b = -1 then .error (.overflow o.display)
      else .ok (.int (a / b)) := rfl
  rw [parts]
  split
  · exact .inr ⟨_, rfl, trivial⟩
  · split
    · exact .inr ⟨_, rfl, trivial⟩
    · exact .inl ⟨_, rfl, rfl⟩

/-- Operands of the types that a row of the table names give a value of its
result type, unless a division is impossible. -/
theorem BinaryOperator.apply_of_mem {o : BinaryOperator} (h : o ∈ BinaryOperator.table)
    {left right : Value} (hl : left.type = o.left) (hr : right.type = o.right) :
    (∃ value, o.apply left right = .ok value ∧ value.type = o.result) ∨
      ∃ fault : Fault, o.apply left right = .error fault ∧ fault.Permitted := by
  simp only [table, List.mem_cons, List.not_mem_nil, or_false] at h
  rcases h with rfl | rfl | rfl | rfl | rfl | rfl | rfl | rfl | rfl | rfl | rfl | rfl | rfl | rfl |
    rfl | rfl | rfl | rfl | rfl | rfl | rfl | rfl
  case inr.inr.inr.inl =>
    obtain ⟨a, rfl⟩ := Value.type_eq_int_iff.1 hl
    obtain ⟨b, rfl⟩ := Value.type_eq_int_iff.1 hr
    exact divide_ints _ a b
  all_goals
    refine .inl ?_
    cases left <;> cases hl
    cases right <;> cases hr
    exact ⟨_, rfl, rfl⟩

namespace BinaryOperator

/-- Only operations on truth values are decided by their left operands. -/
theorem types_of_decisive? {o : BinaryOperator} (h : o ∈ table) {decisive : Bool}
    (hd : o.decisive? = some decisive) : o.left = .bool ∧ o.right = .bool ∧ o.result = .bool := by
  have rows : ∀ o ∈ table, o.decisive? ≠ none →
      o.left = .bool ∧ o.right = .bool ∧ o.result = .bool := by decide
  exact rows o h (by simp [hd])

end BinaryOperator

namespace Bound

open Evaluating

/-- The store of a memory is typed. -/
abbrev TypedMemory (memory : Memory) : Prop := memory.store.Typed

/-- A fault is permitted, and the store is typed. -/
abbrev PermittedFault (fault : Fault) (memory : Memory) : Prop :=
  fault.Permitted ∧ memory.store.Typed

/-- The values of a row of expressions have their types if that is so for each
of them. -/
theorem Expr.ensures_evaluateAll {es : List Expr}
    (h : ∀ e ∈ es, Ensures TypedMemory e.evaluate
      (fun value memory => value.type = e.type ∧ TypedMemory memory) PermittedFault) :
    Ensures TypedMemory (Expr.evaluateAll es)
      (fun values memory => values.map Value.type = es.map Expr.type ∧ TypedMemory memory)
      PermittedFault := by
  induction es with
  | nil => exact ensures_pure fun memory hm => ⟨rfl, hm⟩
  | cons e es ih =>
    have hes := ih fun d hd => h d (List.mem_cons_of_mem _ hd)
    refine (h e List.mem_cons_self).bind fun value => ensures_of_and fun htype => ?_
    refine hes.bind fun values => ensures_of_and fun htypes => ?_
    refine ensures_pure fun memory hm => ⟨?_, hm⟩
    rw [List.map_cons, List.map_cons, htype, htypes]

/-- A well-typed expression gives a value of its static type, unless it runs into
a permitted fault. -/
theorem Expr.WellTyped.ensures {e : Expr} (h : e.WellTyped) :
    Ensures TypedMemory e.evaluate
      (fun value memory => value.type = e.type ∧ TypedMemory memory) PermittedFault := by
  induction h with
  | literal value => exact ensures_pure fun memory hm => ⟨rfl, hm⟩
  | name target _ =>
    refine ensures_read (fun memory value hm hv => ⟨hm.type_of_get? hv, hm⟩) ?_
    exact fun memory hm _ => ⟨trivial, hm⟩
  | assignment target value _ fits ih =>
    refine ih.bind fun result => ensures_of_and fun htype => ?_
    refine (ensures_write fun memory hm => ?_).bind fun _ =>
      ensures_pure fun memory hm => ⟨htype, hm⟩
    exact hm.insert (htype.trans fits)
  | unary o operand row _ fits ih =>
    refine ih.bind fun value => ensures_of_and fun htype => ensures_lift fun memory hm => ?_
    obtain ⟨result, happly, hresult⟩ := UnaryOperator.apply_of_mem row (htype.trans fits)
    rw [happly]
    exact ⟨hresult, hm⟩
  | binary left o right row _ _ fits fits' ih ih' =>
    rw [Expr.evaluate]
    refine ih.bind fun leftValue => ensures_of_and fun htype => ?_
    cases hd : o.decisive? with
    | none =>
      refine ih'.bind fun rightValue => ensures_of_and fun htype' => ?_
      refine ensures_lift fun memory hm => ?_
      rcases BinaryOperator.apply_of_mem row (htype.trans fits) (htype'.trans fits') with
        ⟨value, happly, hvalue⟩ | ⟨fault, happly, hfault⟩
      · rw [happly]
        exact ⟨hvalue, hm⟩
      · rw [happly]
        exact ⟨hfault, hm⟩
    | some decisive =>
      obtain ⟨hleft, hright, hresult⟩ := BinaryOperator.types_of_decisive? row hd
      obtain ⟨b, rfl⟩ := Value.type_eq_bool_iff.1 (htype.trans (fits.trans hleft))
      have truth : (Expr.binary left o right).type = .bool := hresult
      rw [truth]
      show Ensures _ (if b = decisive then _ else _) _ _
      split
      · exact ensures_pure fun memory hm => ⟨rfl, hm⟩
      · refine ih'.bind fun rightValue => ensures_of_and fun htype' => ?_
        obtain ⟨b', rfl⟩ := Value.type_eq_bool_iff.1 (htype'.trans (fits'.trans hright))
        exact ensures_pure fun memory hm => ⟨rfl, hm⟩
  | call f arguments known _ fit ih =>
    refine (Expr.ensures_evaluateAll ih).bind fun values => ensures_of_and fun htypes => ?_
    intro memory hm
    obtain ⟨value, behind, hcall, htype⟩ := exists_on_call known (htypes.trans fit) memory
    have hstore := (ensures_call f values memory.store).of_ok rfl hcall
    rw [hcall]
    exact ⟨htype, by rwa [TypedMemory, hstore]⟩

end Bound

end Scriptlet
