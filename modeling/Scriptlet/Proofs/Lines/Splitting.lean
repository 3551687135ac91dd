import Mathlib.Data.List.Basic
import Scriptlet.Text.Line

/-!
# A text line by line

A text is nothing, a last line that no line feed ends, or a line, its line feed and
another text. So what is to be shown of all texts is shown line by line, and the lines
of a text are read off this form of it.
-/

namespace Scriptlet.Text

/-- A list up to and with the first occurrence of an element; all of it if the element
does not occur. -/
def through {α : Type} [DecidableEq α] (stop : α) : List α → List α
  | [] => []
  | x :: xs => if x = stop then [x] else x :: through stop xs

section Through

variable {α : Type} [DecidableEq α] {stop : α} {xs : List α}

@[simp] theorem through_nil (stop : α) : through stop [] = [] := rfl

/-- A list without the element is taken whole. -/
theorem through_of_not_mem (h : stop ∉ xs) : through stop xs = xs := by
  induction xs with
  | nil => rfl
  | cons x xs ih =>
    rw [List.mem_cons, not_or] at h
    rw [through, if_neg (Ne.symm h.1), ih h.2]

/-- What stands in front of the element is taken and the search goes on behind it. -/
theorem through_append (h : stop ∉ xs) (ys : List α) :
    through stop (xs ++ ys) = xs ++ through stop ys := by
  induction xs with
  | nil => rfl
  | cons x xs ih =>
    rw [List.mem_cons, not_or] at h
    rw [List.cons_append, through, if_neg (Ne.symm h.1), ih h.2, List.cons_append]

/-- Nothing behind the element is taken. -/
@[simp] theorem through_cons_self (stop : α) (ys : List α) :
    through stop (stop :: ys) = [stop] := if_pos rfl

/-- What is taken begins the list. -/
theorem through_begins (stop : α) (xs : List α) : through stop xs <+: xs := by
  induction xs with
  | nil => exact List.prefix_rfl
  | cons x xs ih =>
    rw [through]
    split
    · exact List.prefix_append [x] xs
    · exact List.cons_prefix_cons.2 ⟨rfl, ih⟩

/-- What is taken begins with the first element. -/
@[simp] theorem head?_through (stop : α) (xs : List α) : (through stop xs).head? = xs.head? := by
  cases xs with
  | nil => rfl
  | cons x xs =>
    rw [through]
    split <;> rfl

/-- Of a list with elements, some are taken. -/
theorem through_ne_nil (h : xs ≠ []) : through stop xs ≠ [] := by
  rwa [ne_eq, ← List.head?_eq_none_iff, head?_through, List.head?_eq_none_iff]

end Through

/-- What holds of nothing, of a last line without a line feed, and of a line with its
line feed in front of a text of which it holds, holds of every text. -/
@[elab_as_elim]
theorem lines_induction {motive : List Char → Prop} (nil : motive [])
    (last : ∀ line, '\n' ∉ line → line ≠ [] → motive line)
    (front : ∀ line rest, '\n' ∉ line → motive rest → motive (line ++ '\n' :: rest))
    (text : List Char) : motive text := by
  by_cases fed : '\n' ∈ text
  · obtain ⟨line, rest, hsplit, inLine⟩ := List.eq_append_cons_of_mem fed
    have shorter : rest.length < text.length := by
      rw [hsplit, List.length_append, List.length_cons]
      omega
    rw [hsplit]
    exact front line rest inLine (lines_induction nil last front rest)
  · cases text with
    | nil => exact nil
    | cons c cs => exact last (c :: cs) fed (List.cons_ne_nil c cs)
  termination_by text.length

variable {line : List Char}

/-- A line ends behind its line feed. -/
theorem lines_append_lineFeed (inLine : '\n' ∉ line) (rest : List Char) :
    lines (line ++ '\n' :: rest) = (line ++ ['\n']) :: lines rest := by
  induction line with
  | nil => simp [lines]
  | cons c cs ih =>
    rw [List.mem_cons, not_or] at inLine
    rw [List.cons_append, lines, if_neg (Ne.symm inLine.1), ih inLine.2]
    rfl

/-- A text without a line feed is a line. -/
theorem lines_of_not_mem (inLine : '\n' ∉ line) (nonempty : line ≠ []) : lines line = [line] := by
  induction line with
  | nil => exact absurd rfl nonempty
  | cons c cs ih =>
    rw [List.mem_cons, not_or] at inLine
    rw [lines, if_neg (Ne.symm inLine.1)]
    cases cs with
    | nil => rfl
    | cons d ds => rw [ih inLine.2 (List.cons_ne_nil d ds)]

/-- The first line of a text reaches through its first line feed. -/
theorem exists_lines {text : List Char} (nonempty : text ≠ []) :
    ∃ others, lines text = through '\n' text :: others ∧ ('\n' ∉ text → others = []) := by
  induction text using lines_induction with
  | nil => exact absurd rfl nonempty
  | last line inLine nonempty =>
    exact ⟨[], by rw [lines_of_not_mem inLine nonempty, through_of_not_mem inLine], fun _ => rfl⟩
  | front line rest inLine _ =>
    refine ⟨lines rest, ?_, fun unfed => absurd (by simp) unfed⟩
    rw [lines_append_lineFeed inLine, through_append inLine, through_cons_self]

end Scriptlet.Text
