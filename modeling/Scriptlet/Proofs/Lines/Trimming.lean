import Mathlib.Data.List.TakeWhile
import Scriptlet.Text.Blank

/-!
# Texts without the blanks around them

What stands between the first and the last character of a text that are not blank stays
as it is: leading blanks are taken up to the first such character, trailing ones down to
the last.
-/

namespace Scriptlet.Text

/-- Nothing in front of a character that is not blank is taken from the end. -/
theorem trimEnd_append {xs ys : List Char} (visible : trimEnd ys ≠ []) :
    trimEnd (xs ++ ys) = xs ++ trimEnd ys := by
  have left : (ys.reverse.dropWhile isBlank).isEmpty = false := by
    simpa [trimEnd] using visible
  rw [trimEnd, List.reverse_append, List.dropWhile_append, left]
  simp [trimEnd]

/-- A character that is not blank stays in front. -/
theorem trimEnd_cons {c : Char} (visible : isBlank c = false) (cs : List Char) :
    trimEnd (c :: cs) = c :: trimEnd cs := by
  by_cases blank : trimEnd cs = []
  · have all : cs.reverse.dropWhile isBlank = [] := by simpa [trimEnd] using blank
    rw [blank, trimEnd, List.reverse_cons, List.dropWhile_append, all]
    simp [visible]
  · rw [← List.singleton_append, trimEnd_append blank, List.singleton_append]

/-- Of a text that is not blank, the first character that is not blank comes first. -/
theorem trimStart_cases (cs : List Char) :
    trimStart cs = [] ∨ ∃ c rest, trimStart cs = c :: rest ∧ isBlank c = false := by
  have head := List.head?_dropWhile_not isBlank cs
  cases trimmed : trimStart cs with
  | nil => exact .inl rfl
  | cons c rest =>
    rw [trimStart] at trimmed
    rw [trimmed] at head
    exact .inr ⟨c, rest, rfl, by simpa using head⟩

/-- A text without the blanks at its ends begins as it does without those in front. -/
theorem head?_trim (cs : List Char) : (trim cs).head? = (trimStart cs).head? := by
  rcases trimStart_cases cs with trimmed | ⟨c, rest, trimmed, visible⟩
  · rw [trim, trimmed]
    rfl
  · rw [trim, trimmed, trimEnd_cons visible]
    rfl

/-- Nothing is left of a text between blanks only if all of it is blank. -/
theorem trim_eq_nil_iff {cs : List Char} : trim cs = [] ↔ ∀ c ∈ cs, isBlank c = true := by
  rw [← List.head?_eq_none_iff, head?_trim, List.head?_eq_none_iff, trimStart,
    List.dropWhile_eq_nil_iff]

end Scriptlet.Text
