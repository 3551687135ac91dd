import Scriptlet.Evaluation.Machine
import Scriptlet.Proofs.Evaluation.Entries

/-!
# What runs do to the store

A step of a machine changes the store at the places of the statement at hand
only. So a property of stores that outlasts the writes of that statement outlasts
the step, and one that outlasts the writes of a whole program holds throughout
its runs.
-/

namespace Scriptlet

/-- The memory that a run has come to. -/
def Progress.memory : Progress → Memory
  | .halted _ memory => memory
  | .running machine => machine.memory

namespace Evaluating

/-- A sequence that gives a result has one of its first part. -/
theorem exists_of_on_bind {α β : Type} {m : Evaluating α} {f : α → Evaluating β}
    {before after : Memory} {b : β} (h : (m >>= f).on before = (.ok b, after)) :
    ∃ a between, m.on before = (.ok a, between) ∧ (f a).on between = (.ok b, after) := by
  rw [on_bind] at h
  rcases hm : m.on before with ⟨fault | a, between⟩
  · rw [hm] at h
    cases h
  · rw [hm] at h
    exact ⟨a, between, rfl, h⟩

end Evaluating

namespace Bound

/-- A variable that gets no value at some places keeps its entry, or keeps having
none. -/
theorem outlasts_get? {sites : List Site} {v : Variable} (h : ∀ site ∈ sites, site.target ≠ v)
    (entry : Option Value) : Outlasts (·.get? v = entry) sites := by
  intro site hs s value same
  rw [Store.get?_insert_of_ne s value (h site hs).symm]
  exact same

end Bound

namespace Machine

open Scriptlet.Bound Evaluating

variable {P : Store → Prop} {p : Program} {m : Machine}

/-- What a statement of a flat program does keeps what outlasts its writes. -/
theorem keeps_execute {s : Stmt} (h : Outlasts P s.sites) (index : Nat) (last : Value) :
    Keeps P (execute p index last s) := by
  cases s with
  | declaration target initializer =>
    have value := initializer.keeps h.left
    exact value.bind fun value => (keeps_write h.right value).bind fun _ => keeps_pure _
  | expression inner => exact (inner.keeps h).bind fun value => keeps_pure _
  | goto target => exact (keeps_lift _).bind fun index => keeps_pure _
  | gotoIf target condition expected =>
    refine (condition.keeps h).bind fun value => (keeps_lift _).bind fun outcome => ?_
    split
    · exact (keeps_lift _).bind fun index => keeps_pure _
    · exact keeps_pure _
  | label => exact keeps_pure _
  | block | ifThen | ifElse | whileLoop | forLoop => exact fun _ hm => hm

/-- A step keeps what outlasts the writes of the statement at hand. -/
theorem keeps_step (h : ∀ s, p[m.index]? = some s → Outlasts P s.sites)
    (hm : P m.memory.store) : P (m.step p).memory.store := by
  cases hs : p[m.index]? with
  | none =>
    have ends : m.step p = .halted (.ok m.last) m.memory := by simp only [step, hs]
    rw [ends]
    exact hm
  | some s =>
    have runs := keeps_execute (p := p) (h s hs) m.index m.last
    simp only [step, hs]
    rcases hexecute : (execute p m.index m.last s).on m.memory with ⟨fault | ⟨index, last⟩, behind⟩
    · exact runs.of_error hm hexecute
    · exact runs.of_ok hm hexecute

/-- A run keeps what outlasts the writes of its program, however long it is. -/
theorem keeps_advance (h : ∀ s ∈ p, Outlasts P s.sites) (steps : Nat)
    (hm : P m.memory.store) : P (m.advance p steps).memory.store := by
  induction steps generalizing m with
  | zero => exact hm
  | succ steps ih =>
    have first := keeps_step (fun s hs => h s (List.mem_of_getElem? hs)) hm
    rw [advance]
    cases hs : m.step p with
    | running next =>
      rw [hs] at first
      exact ih first
    | halted result memory => rwa [hs] at first

end Machine

end Scriptlet
