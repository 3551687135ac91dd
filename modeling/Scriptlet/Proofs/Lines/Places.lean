import Mathlib.Data.List.TakeDrop
import Scriptlet.Proofs.Lines.Splitting

/-!
# Where a position stands

A position is a number of bytes, and it may stand inside of a character. Its line is
found all the same: no byte of a longer character is that of a line feed, so the bytes of
a text have the line feeds of the text and its lines can be counted and cut among them.
-/

namespace Scriptlet.Text

/-- The bytes of a run of characters in UTF-8. -/
def bytes (cs : List Char) : List UInt8 := cs.flatMap String.utf8EncodeChar

/-- The byte of a line feed. -/
def lineFeed : UInt8 := 10

/-- Where the line with a position begins: behind the last line feed in front of the
position, or at the beginning of the text. -/
def lineStart (text : List UInt8) : (position : Nat) → Nat
  | 0 => 0
  | position + 1 =>
    if text[position]? = some lineFeed then position + 1 else lineStart text position

@[simp] theorem bytes_append (xs ys : List Char) : bytes (xs ++ ys) = bytes xs ++ bytes ys :=
  List.flatMap_append

@[simp] theorem bytes_lineFeed : bytes ['\n'] = [lineFeed] := by decide

/-- There are as many bytes as the text is wide. -/
@[simp] theorem length_bytes (cs : List Char) : (bytes cs).length = width cs := by
  induction cs with
  | nil => rfl
  | cons c cs ih =>
    rw [bytes, List.flatMap_cons, List.length_append, String.length_utf8EncodeChar, width_cons]
    exact congrArg (c.utf8Size + ·) ih

/-- The bytes of a text are those of its UTF-8 form. -/
theorem bytes_toList (text : String) : bytes text.toList = text.toByteArray.data.toList := by
  rw [← String.ofList_toList (s := text), String.toByteArray_ofList, String.toList_ofList,
    List.utf8Encode, List.data_toByteArray]
  rfl

/-- Only a line feed has the byte of a line feed. -/
theorem lineFeed_mem_encoded (c : Char) : lineFeed ∈ String.utf8EncodeChar c ↔ c = '\n' := by
  have same : c = '\n' ↔ c.val.toNat = 10 := by
    rw [← Char.toNat_inj]
    rfl
  rw [same, String.utf8EncodeChar]
  simp only [lineFeed]
  generalize c.val.toNat = v
  split
  · rw [List.mem_singleton, ← UInt8.toNat_inj]
    simp only [UInt8.toNat_ofNat', UInt8.reduceToNat]
    omega
  · repeat' split
    all_goals
      simp only [List.mem_cons, List.not_mem_nil, or_false, ← UInt8.toNat_inj,
        UInt8.toNat_ofNat', UInt8.reduceToNat]
      omega

/-- The bytes of a text have a line feed if the text has one. -/
theorem lineFeed_mem_bytes {cs : List Char} : lineFeed ∈ bytes cs ↔ '\n' ∈ cs := by
  simp [bytes, lineFeed_mem_encoded]

section Start

variable {text line rest : List UInt8} {position : Nat}

/-- Without a line feed in front of the position, its line is the first one. -/
theorem lineStart_of_not_mem (inLine : lineFeed ∉ text.take position) :
    lineStart text position = 0 := by
  induction position with
  | zero => rfl
  | succ position ih =>
    rw [List.take_add_one, List.mem_append, not_or] at inLine
    rw [lineStart, if_neg, ih inLine.1]
    exact fun fed => inLine.2 (by simp [fed])

/-- Behind a line feed, lines begin as they do in what stands there. -/
theorem lineStart_behind (line rest : List UInt8) (position : Nat) :
    lineStart (line ++ lineFeed :: rest) (line.length + 1 + position) =
      line.length + 1 + lineStart rest position := by
  induction position with
  | zero => simp [lineStart]
  | succ position ih =>
    have behind : (line ++ lineFeed :: rest)[line.length + 1 + position]? = rest[position]? := by
      rw [List.getElem?_append_right (by omega),
        show line.length + 1 + position - line.length = position + 1 by omega,
        List.getElem?_cons_succ]
    rw [← Nat.add_assoc, lineStart, lineStart, behind, ih]
    split <;> omega

/-- A line with its line feed is taken from the front of a text before all else. -/
theorem take_behind (line rest : List UInt8) (position : Nat) :
    (line ++ lineFeed :: rest).take (line.length + 1 + position) =
      line ++ lineFeed :: rest.take position := by
  have all : (line ++ [lineFeed]).length = line.length + 1 := List.length_append
  rw [List.append_cons, ← all, List.take_length_add_append, ← List.append_cons]

/-- A line with its line feed is dropped from the front of a text before all else. -/
theorem drop_behind (line rest : List UInt8) (position : Nat) :
    (line ++ lineFeed :: rest).drop (line.length + 1 + position) = rest.drop position := by
  have all : (line ++ [lineFeed]).length = line.length + 1 := List.length_append
  rw [List.append_cons, ← all, List.drop_length_add_append]

end Start

/-- The place is that of a position in a text, the first line of which has some number. -/
structure Place.Locates (first : Nat) (text : List UInt8) (position : Nat) (place : Place) :
    Prop where
  number : place.number = first + (text.take position).count lineFeed
  offset : place.offset = position - lineStart text position
  line : bytes place.line = through lineFeed (text.drop (lineStart text position))

/-- In a line without a line feed in front of the position, bytes are counted from the
beginning of the text. -/
theorem Place.Locates.first {first position : Nat} {text : List UInt8} {line : List Char}
    (inLine : lineFeed ∉ text.take position) (reaches : bytes line = through lineFeed text) :
    Place.Locates first text position ⟨first, line, position⟩ := by
  have start := lineStart_of_not_mem inLine
  refine ⟨?_, ?_, ?_⟩
  · rw [List.count_eq_zero.2 inLine, Nat.add_zero]
  · rw [start, Nat.sub_zero]
  · rw [start, List.drop_zero]
    exact reaches

/-- What stands in a text stands behind a line in front of it, on a line with one number
more. -/
theorem Place.Locates.behind {first position : Nat} {line rest : List UInt8} {place : Place}
    (inLine : lineFeed ∉ line) (h : place.Locates (first + 1) rest position) :
    place.Locates first (line ++ lineFeed :: rest) (line.length + 1 + position) := by
  have start := lineStart_behind line rest position
  refine ⟨?_, ?_, ?_⟩
  · rw [h.number, take_behind, List.count_append, List.count_cons_self,
      List.count_eq_zero.2 inLine]
    omega
  · rw [h.offset, start]
    omega
  · rw [h.line, start, drop_behind]

/-- The walk along the lines of a text stops at the line with the position, or with the
last one if the position is behind the text. -/
theorem placeAmong_lines (text : List Char) (number position : Nat) :
    (placeAmong number position (lines text)).Locates number (bytes text)
      (min position (width text)) := by
  induction text using lines_induction generalizing number position with
  | nil =>
    rw [width_nil, Nat.min_zero]
    exact .first (by simp) rfl
  | last line inLine nonempty =>
    have unfed : lineFeed ∉ bytes line := mt lineFeed_mem_bytes.1 inLine
    have unended : line.getLast? ≠ some '\n' := fun fed => inLine (List.mem_of_getLast? fed)
    have located (q : Nat) : Place.Locates number (bytes line) q ⟨number, line, q⟩ :=
      .first (mt List.mem_of_mem_take unfed) (through_of_not_mem unfed).symm
    rw [lines_of_not_mem inLine nonempty, placeAmong]
    split
    next inside =>
      rw [Nat.min_eq_left (Nat.le_of_lt inside)]
      exact located position
    next behind =>
      rw [Nat.min_eq_right (Nat.le_of_not_lt behind), if_pos (by simpa using unended)]
      exact located (width line)
  | front line rest inLine ih =>
    have unfed : lineFeed ∉ bytes line := mt lineFeed_mem_bytes.1 inLine
    have bytes_eq : bytes (line ++ '\n' :: rest) = bytes line ++ lineFeed :: bytes rest := by
      rw [List.append_cons, bytes_append, bytes_append, bytes_lineFeed, ← List.append_cons]
    have whole : width (line ++ '\n' :: rest) = width line + 1 + width rest := by
      rw [List.append_cons, width_append, width_append]
      rfl
    have first : width (line ++ ['\n']) = width line + 1 := width_append line ['\n']
    rw [lines_append_lineFeed inLine, bytes_eq, whole, placeAmong, first]
    split
    next inside =>
      have reached : position ≤ (bytes line).length := by
        rw [length_bytes]
        omega
      rw [Nat.min_eq_left (by omega)]
      refine .first ?_ ?_
      · rw [List.take_append_of_le_length reached]
        exact mt List.mem_of_mem_take unfed
      · rw [bytes_append, bytes_lineFeed, through_append unfed, through_cons_self]
    next behind =>
      have further : min position (width line + 1 + width rest) =
          (bytes line).length + 1 + min (position - (width line + 1)) (width rest) := by
        rw [length_bytes]
        omega
      rw [if_neg (by simp), further]
      exact (ih (number + 1) (position - (width line + 1))).behind unfed

/-- The place of a position, or of the end of the text if that comes first. The number of
its line is one more than there are line feeds in front of the position, the line begins
behind the last of them and reaches through the next one, and the offset counts from where
the line begins. -/
theorem place_counts_lineFeeds (text : String) (position : Nat) :
    let read := min position text.utf8ByteSize
    let start := lineStart (bytes text.toList) read
    (place text.toList position).number = 1 + ((bytes text.toList).take read).count lineFeed ∧
      (place text.toList position).offset = read - start ∧
      bytes (place text.toList position).line =
        through lineFeed ((bytes text.toList).drop start) := by
  have located := placeAmong_lines text.toList 1 position
  rw [width_toList] at located
  exact ⟨located.number, located.offset, located.line⟩

/-- A position inside of a character of two bytes. -/
example : place "a\nbé\n".toList 4 = ⟨2, ['b', 'é', '\n'], 2⟩ := by decide

/-! ### Places between characters -/

/-- The line is what stands behind the last line feed of a text. -/
structure LastLine (text line : List Char) : Prop where
  inLine : '\n' ∉ line
  begins : text = line ∨ ∃ front, text = front ++ '\n' :: line

/-- A text ends with its last line. -/
theorem LastLine.exists_front {text line : List Char} (h : LastLine text line) :
    ∃ front, text = front ++ line := by
  rcases h.begins with rfl | ⟨front, rfl⟩
  · exact ⟨[], rfl⟩
  · exact ⟨front ++ ['\n'], by simp⟩

/-- Behind a line feed, the last line is the last one of what stands there. -/
theorem LastLine.behind {rest last : List Char} (h : LastLine rest last) (line : List Char) :
    LastLine (line ++ '\n' :: rest) last := by
  refine ⟨h.inLine, ?_⟩
  rcases h.begins with rfl | ⟨front, rfl⟩
  · exact .inr ⟨line, rfl⟩
  · exact .inr ⟨line ++ '\n' :: front, by simp⟩

/-- Behind a part of the first line, a position stands in the line that goes on through
the first line feed. -/
theorem placeAmong_inLine {line : List Char} (inLine : '\n' ∉ line) (after : List Char)
    (number : Nat) : placeAmong number (width line) (lines (line ++ after)) =
      ⟨number, line ++ through '\n' after, width line⟩ := by
  by_cases nonempty : line ++ after = []
  · obtain ⟨rfl, rfl⟩ := List.append_eq_nil_iff.1 nonempty
    rfl
  · obtain ⟨others, lines_eq, last⟩ := exists_lines nonempty
    rw [lines_eq, through_append inLine, placeAmong]
    split
    next => rfl
    next behind =>
      -- the position is behind the line only if nothing follows
      have ended : after = [] := by
        by_contra more
        have some : through '\n' after ≠ [] := through_ne_nil more
        have wide := width_pos some
        rw [width_append] at behind
        omega
      have unended : line.getLast? ≠ some '\n' := fun fed => inLine (List.mem_of_getLast? fed)
      subst ended
      rw [List.append_nil] at last
      simp [last inLine, unended]

/-- Between two characters, a position stands in the line that begins with the last line of
what is in front and goes on through the first line feed of what is behind. -/
theorem exists_placeAmong (before : List Char) : ∃ line, LastLine before line ∧
    ∀ after number, placeAmong number (width before) (lines (before ++ after)) =
      ⟨number + before.count '\n', line ++ through '\n' after, width line⟩ := by
  induction before using lines_induction with
  | nil => exact ⟨[], ⟨List.not_mem_nil, .inl rfl⟩, placeAmong_inLine List.not_mem_nil⟩
  | last line inLine _ =>
    refine ⟨line, ⟨inLine, .inl rfl⟩, fun after number => ?_⟩
    rw [placeAmong_inLine inLine, List.count_eq_zero.2 inLine, Nat.add_zero]
  | front line rest inLine ih =>
    obtain ⟨last, begins, located⟩ := ih
    refine ⟨last, begins.behind line, fun after number => ?_⟩
    have whole : width (line ++ '\n' :: rest) = width (line ++ ['\n']) + width rest := by
      rw [List.append_cons, width_append]
    have further : ¬width (line ++ ['\n']) + width rest < width (line ++ ['\n']) := by omega
    rw [List.append_assoc, List.cons_append, lines_append_lineFeed inLine, whole, placeAmong,
      if_neg further, if_neg (by simp), Nat.add_sub_cancel_left, located, List.count_append,
      List.count_cons_self, List.count_eq_zero.2 inLine, Nat.zero_add]
    simp only [Nat.add_assoc, Nat.add_comm 1]

end Scriptlet.Text
