/-!
# Spans of source text

A source text is addressed by byte offsets into its UTF-8 form. This module
fixes how wide a run of characters is and what a half-open range of offsets
is. The width of a concatenation is the sum of the widths, and the cover of two
spans contains both of them.
-/

namespace Scriptlet

/-- Number of bytes a run of characters takes in UTF-8. -/
def Text.width : List Char → Nat
  | [] => 0
  | c :: cs => c.utf8Size + Text.width cs

@[simp] theorem Text.width_nil : Text.width [] = 0 := rfl

@[simp] theorem Text.width_cons (c : Char) (cs : List Char) :
    Text.width (c :: cs) = c.utf8Size + Text.width cs := rfl

/-- Widths add up over a concatenation. -/
@[simp] theorem Text.width_append (xs ys : List Char) :
    Text.width (xs ++ ys) = Text.width xs + Text.width ys := by
  induction xs with
  | nil => simp
  | cons c cs ih => simp only [List.cons_append, width_cons, ih, Nat.add_assoc]

/-- Every character takes room. -/
theorem Text.width_pos {cs : List Char} (h : cs ≠ []) : 0 < Text.width cs := by
  cases cs with
  | nil => exact absurd rfl h
  | cons c cs => exact Nat.lt_of_lt_of_le c.utf8Size_pos (Nat.le_add_right _ _)

/-- The width of a text is the size of its UTF-8 form. -/
theorem Text.width_toList (text : String) : Text.width text.toList = text.utf8ByteSize := by
  suffices h : ∀ cs : List Char, Text.width cs = (String.ofList cs).utf8ByteSize by
    rw [h, String.ofList_toList]
  intro cs
  induction cs with
  | nil => simp [String.ofList_nil]
  | cons c cs ih =>
    have split : String.ofList (c :: cs) = String.singleton c ++ String.ofList cs := by
      rw [String.singleton_eq_ofList, ← String.ofList_append]
      rfl
    rw [split, String.utf8ByteSize_append, String.utf8ByteSize_singleton, ← ih, width_cons]

/-- A half-open range of byte offsets into a source text. -/
structure Span where
  /-- Offset of the first byte inside the range. -/
  start : Nat
  /-- Offset of the first byte behind the range. -/
  stop : Nat
  deriving DecidableEq, Repr, Inhabited

namespace Span

/-- The range without bytes at an offset. -/
def empty (position : Nat) : Span := ⟨position, position⟩

/-- Number of bytes in the range. -/
def length (s : Span) : Nat := s.stop - s.start

/-- The smallest range that contains both ranges. -/
def cover (s t : Span) : Span := ⟨min s.start t.start, max s.stop t.stop⟩

/-- Every offset of the inner range is one of the outer range. -/
def Within (inner outer : Span) : Prop := outer.start ≤ inner.start ∧ inner.stop ≤ outer.stop

instance (inner outer : Span) : Decidable (inner.Within outer) :=
  inferInstanceAs (Decidable (_ ∧ _))

end Span

end Scriptlet
