import Scriptlet.Symbol

/-!
# The store

The values of variables, by their identity. A store outlives the program that
filled it, so the programs of a session share their variables. Giving a
variable a value leaves all other variables as they were.
-/

namespace Scriptlet

/-- The values of variables. Each variable has at most one entry, and entries
keep the order in which the variables first got a value. -/
structure Store where
  entries : List (Variable × Value)
  deriving DecidableEq, Repr, Inhabited

namespace Store

/-- The store without entries. -/
def empty : Store := ⟨[]⟩

/-- Replaces the value of a variable among entries, or adds it behind them. -/
def insertInto (v : Variable) (value : Value) : List (Variable × Value) → List (Variable × Value)
  | [] => [(v, value)]
  | entry :: rest =>
    if entry.1 = v then (v, value) :: rest else entry :: insertInto v value rest

/-- Gives a variable a value. -/
def insert (s : Store) (v : Variable) (value : Value) : Store := ⟨insertInto v value s.entries⟩

/-- The value of a variable, if it has one. -/
def get? (s : Store) (v : Variable) : Option Value :=
  (s.entries.find? fun entry => entry.1 == v).map Prod.snd

@[simp] theorem get?_empty (v : Variable) : empty.get? v = none := rfl

/-- A variable has the value it was given last. -/
@[simp] theorem get?_insert_self (s : Store) (v : Variable) (value : Value) :
    (s.insert v value).get? v = some value := by
  obtain ⟨entries⟩ := s
  simp only [insert, get?]
  induction entries with
  | nil => simp [insertInto]
  | cons entry rest ih =>
    rw [insertInto]
    by_cases h : entry.1 = v <;> simp_all

/-- Giving one variable a value changes no other. -/
theorem get?_insert_of_ne (s : Store) {v w : Variable} (value : Value) (h : w ≠ v) :
    (s.insert v value).get? w = s.get? w := by
  obtain ⟨entries⟩ := s
  simp only [insert, get?]
  induction entries with
  | nil => simp [insertInto, Ne.symm h]
  | cons entry rest ih =>
    rw [insertInto]
    by_cases e : entry.1 = v
    · simp [e, Ne.symm h]
    · by_cases f : entry.1 = w <;> simp_all

end Store

end Scriptlet
