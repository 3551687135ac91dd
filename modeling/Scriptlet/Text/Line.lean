import Scriptlet.Text.Span

/-!
# Lines of a text

Positions are shown to a reader as a line number, the text of that line and an
offset into it. The lines of a text, put one after the other, are the text.
-/

namespace Scriptlet.Text

/-- The lines of a text, each with the line feed that ends it. Nothing follows
a final line feed, so the empty text has no line. -/
def lines : List Char → List (List Char)
  | [] => []
  | c :: cs =>
    if c = '\n' then [c] :: lines cs
    else match lines cs with
      | [] => [[c]]
      | line :: rest => (c :: line) :: rest

/-- A position as a reader finds it. -/
structure Place where
  /-- Number of the line, counted from one. -/
  number : Nat
  /-- Text of the line with its line feed, if it has one. -/
  line : List Char
  /-- Bytes of the line before the position. -/
  offset : Nat
  deriving DecidableEq, Repr

/-- Walks down the lines that are left, `position` bytes behind their first
one. The last line also takes every position behind it unless a line feed ends
it; then an empty line follows. -/
def placeAmong (number position : Nat) : List (List Char) → Place
  | [] => ⟨number, [], 0⟩
  | line :: rest =>
    if position < width line then ⟨number, line, position⟩
    else if rest.isEmpty && line.getLast? != some '\n' then ⟨number, line, width line⟩
    else placeAmong (number + 1) (position - width line) rest

/-- The line that holds a byte offset. Offsets behind the text belong to its
last line. -/
def place (text : List Char) (position : Nat) : Place := placeAmong 1 position (lines text)

end Scriptlet.Text
