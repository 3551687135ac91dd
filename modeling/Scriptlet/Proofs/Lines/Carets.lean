import Scriptlet.Proofs.Lines.Beginnings
import Scriptlet.Proofs.Lines.Places
import Scriptlet.Proofs.Lines.Trimming
import Scriptlet.Proofs.Renaming.Sessions
import Scriptlet.Repl.Basic

/-!
# Where the carets stand

A report shows the line of a problem without its indentation and puts a caret below the
place where the problem begins. The caret is put behind as many dashes as bytes stand in
the shown line in front of that place, so it stands below the place exactly if each of
the characters there takes one byte.
-/

namespace Scriptlet

namespace Text

variable {cs : List Char}

/-- A text has no more characters than bytes. -/
theorem length_le_width (cs : List Char) : cs.length ≤ width cs := by
  induction cs with
  | nil => exact Nat.le_refl 0
  | cons c cs ih =>
    have room := c.utf8Size_pos
    rw [List.length_cons, width_cons]
    omega

/-- Only characters of the ASCII range take one byte each. -/
theorem width_eq_length_iff : width cs = cs.length ↔ ∀ c ∈ cs, c.toNat < 128 := by
  induction cs with
  | nil => simp
  | cons c cs ih =>
    have room := c.utf8Size_pos
    have others := length_le_width cs
    have single : c.utf8Size = 1 ↔ c.toNat < 128 := by
      rw [Char.utf8Size_eq_one_iff, UInt32.le_iff_toNat_le]
      exact Nat.lt_succ_iff.symm
    rw [List.forall_mem_cons, ← ih, ← single, width_cons, List.length_cons]
    omega

/-- Behind a text, the column counted in bytes is the one counted in characters and one more
for each further byte, so both agree only in the ASCII range. -/
theorem column_eq (start : Nat) (cs : List Char) :
    start + width cs = start + cs.length + (width cs - cs.length) ∧
      (start + width cs = start + cs.length ↔ ∀ c ∈ cs, c.toNat < 128) := by
  have room := length_le_width cs
  rw [← width_eq_length_iff]
  omega

/-- Only blanks are cut off at the end. -/
theorem trimEnd_begins (cs : List Char) : trimEnd cs <+: cs := by
  rw [trimEnd, ← List.reverse_suffix, List.reverse_reverse]
  exact List.dropWhile_suffix isBlank

end Text

namespace Repl

open Text

/-- The indentation of a line ends in front of the first character that is none, wherever
the line is cut behind its indentation. -/
theorem indentation_append (line : List Char) {rest : List Char}
    (ends : ∀ c ∈ rest.head?, isIndentation c = false) :
    (line ++ rest).takeWhile isIndentation = line.takeWhile isIndentation ∧
      (line ++ rest).dropWhile isIndentation = line.dropWhile isIndentation ++ rest := by
  induction line with
  | nil =>
    cases rest with
    | nil => exact ⟨rfl, rfl⟩
    | cons c cs => simp [ends c rfl]
  | cons c cs ih => by_cases h : isIndentation c <;> simp [h, ih]

/-- Indentation is blank. -/
theorem isBlank_of_isIndentation {c : Char} (h : isIndentation c = true) : isBlank c = true := by
  rw [isIndentation, Bool.or_eq_true, beq_iff_eq, beq_iff_eq] at h
  rcases h with rfl | rfl <;> decide

/-- The line of a source with some position is shown without its indentation: first what
stands in it in front of the position, then what stands behind, of which at least the first
character is shown if there is one. -/
inductive Shown (source : List Char) : (position : Nat) → (before behind : List Char) → Prop
  | intro {front indentation before behind after : List Char}
      (split : source = front ++ (indentation ++ before) ++ after)
      (line : LastLine (front ++ (indentation ++ before)) (indentation ++ before))
      (removed : ∀ c ∈ indentation, isIndentation c = true)
      (kept : ∀ c ∈ before.head?, isIndentation c = false)
      (follows : behind <+: after) (visible : after ≠ [] → behind ≠ []) :
      Shown source (width (front ++ (indentation ++ before))) before behind

/-- The last line of what stands in front of a position is shown in front of it, less its
indentation. -/
theorem Shown.of_line {source front line behind after : List Char}
    (split : source = front ++ line ++ after) (last : LastLine (front ++ line) line)
    (follows : behind <+: after) (visible : after ≠ [] → behind ≠ []) :
    Shown source (width (front ++ line)) (line.dropWhile isIndentation) behind := by
  have halves : line.takeWhile isIndentation ++ line.dropWhile isIndentation = line :=
    List.takeWhile_append_dropWhile
  have kept : ∀ c ∈ (line.dropWhile isIndentation).head?, isIndentation c = false := by
    have head := List.head?_dropWhile_not isIndentation line
    intro c hc
    rw [hc] at head
    simpa using head
  have removed : ∀ c ∈ line.takeWhile isIndentation, isIndentation c = true := fun c =>
    List.mem_takeWhile_imp
  rw [← halves] at split last
  have shown := Shown.intro split last removed kept follows visible
  rwa [halves] at shown

/-- What stands in a shown line in front of the line of the source. -/
def label (number : Nat) : List Char := (toString number).toList ++ [' ', '|', ' ']

/-- The first occurrence of an element is behind what does not hold it. -/
theorem idxOf?_append_cons {lead : List Char} {c : Char} (h : c ∉ lead) (rest : List Char) :
    (lead ++ c :: rest).idxOf? c = some lead.length := by
  rw [List.idxOf?_eq_some_iff]
  refine ⟨by simp, by simp, fun j hj same => h ?_⟩
  rw [List.getElem_append_left hj] at same
  exact same ▸ List.getElem_mem hj

/-- Where a line feed ends a source, the last line in front of a place that begins at its
end is empty. -/
theorem lastLine_eq_nil {source line : List Char} (last : LastLine source line)
    (ended : source.getLast? = some '\n') : line = [] := by
  cases final : line.getLast? with
  | none => exact List.getLast?_eq_none_iff.1 final
  | some c =>
    have same : source.getLast? = some c := by
      rcases last.begins with rfl | ⟨front, rfl⟩
      · exact final
      · rw [List.getLast?_append, List.getLast?_cons, final]
        rfl
    obtain rfl : c = '\n' := Option.some.inj (same.symm.trans ended)
    exact absurd (List.mem_of_getLast? final) last.inLine

/-- The end of a line is cut off behind a character that is not blank, and nothing is cut off
if there is none and the line is empty. -/
theorem trimEnd_line {line rest : List Char} (visible : ∀ c ∈ rest.head?, isBlank c = false)
    (ended : rest = [] → line = []) :
    trimEnd (line ++ rest) = line ++ trimEnd rest ∧ (rest ≠ [] → trimEnd rest ≠ []) := by
  cases rest with
  | nil =>
    rw [ended rfl]
    exact ⟨rfl, fun some => absurd rfl some⟩
  | cons c cs =>
    have shown : trimEnd (c :: cs) ≠ [] := by
      rw [trimEnd_cons (visible c rfl)]
      exact List.cons_ne_nil _ _
    exact ⟨trimEnd_append shown, fun _ => shown⟩

/-- Where a place begins in front of a character that is not blank, or at the end behind a
line feed, its line is shown on both sides of where it begins. -/
theorem exists_shown {source : List Char} {span : Span} (begins : span.Begins source)
    (ended : source.getLast? = some '\n') : ∃ before behind,
      trimEnd ((place source span.start).line.dropWhile isIndentation) = before ++ behind ∧
      (place source span.start).offset -
        width ((place source span.start).line.takeWhile isIndentation) = width before ∧
      Shown source span.start before behind := by
  obtain ⟨text, after, split, start, visible⟩ := begins
  obtain ⟨line, last, located⟩ := exists_placeAmong text
  have place_eq : place source span.start =
      ⟨1 + text.count '\n', line ++ through '\n' after, width line⟩ := by
    rw [place, split, start, located]
  have visible : ∀ c ∈ (through '\n' after).head?, isBlank c = false := by rwa [head?_through]
  obtain ⟨taken, dropped⟩ := indentation_append line fun c hc =>
    Bool.eq_false_iff.2 fun h => Bool.eq_false_iff.1 (visible c hc) (isBlank_of_isIndentation h)
  have unended (nothing : after = []) : line = [] := by
    rw [split, nothing, List.append_nil] at ended
    exact lastLine_eq_nil last ended
  have emptied (none : through '\n' after = []) : line.dropWhile isIndentation = [] := by
    rw [unended (Classical.byContradiction fun some => through_ne_nil some none)]
    rfl
  obtain ⟨trimmed, appears⟩ := trimEnd_line visible emptied
  obtain ⟨front, front_eq⟩ := last.exists_front
  have halves : line = line.takeWhile isIndentation ++ line.dropWhile isIndentation :=
    List.takeWhile_append_dropWhile.symm
  refine ⟨line.dropWhile isIndentation, trimEnd (through '\n' after), ?_, ?_, ?_⟩
  · rw [place_eq, dropped, trimmed]
  · have whole := congrArg width halves
    rw [width_append] at whole
    simp only [place_eq, taken]
    omega
  · rw [front_eq] at split last
    rw [start, front_eq]
    refine .of_line split last ((trimEnd_begins _).trans (through_begins '\n' after)) ?_
    exact fun some => appears (through_ne_nil some)

/-- What stands in a marker line in front of its first caret. -/
def lead (number dashes : Nat) : List Char :=
  alignRight ' ' ((toString number).toList.length + 2) ['|'] ++ [' '] ++ List.replicate dashes '-'

/-- A marker line leads up to its caret below the label and as many characters of the
line. -/
theorem length_lead (number dashes : Nat) :
    (lead number dashes).length = (label number).length + dashes := by
  simp [lead, label, alignRight]
  omega

/-- No caret stands in front of the first one. -/
theorem caret_not_mem_lead (number dashes : Nat) : '^' ∉ lead number dashes := by
  simp [lead, alignRight]

/-- A report has a line with the number and the line of a place and one with carets. -/
theorem report_eq {source : List Char} {d : Diagnostic} {before behind : List Char}
    (shown : trimEnd ((place source d.span.start).line.dropWhile isIndentation) = before ++ behind)
    (offset : (place source d.span.start).offset -
      width ((place source d.span.start).line.takeWhile isIndentation) = width before) :
    ∃ title bar number carets, report source d =
      [title, bar, String.ofList (label number ++ before ++ behind),
        String.ofList (lead number (width before) ++ '^' :: carets)] := by
  have final : max 1 (width before + 1) - 1 = width before := by omega
  simp only [report, shown, offset]
  refine ⟨_, _, (place source d.span.start).number, List.replicate (max d.span.length 1 - 1) '^',
    List.cons_eq_cons.2 ⟨rfl, List.cons_eq_cons.2 ⟨rfl, ?_⟩⟩⟩
  simp [label, lead, alignRight]

/-- A submission that is read is the text of the lines gathered and ends in a line feed. -/
theorem text_of_read {pending line : String} {source : Syntax.Source}
    (submits : read pending line = .submission source) :
    source = .ofText (pending ++ line ++ "\n") := by
  unfold read at submits
  split at submits
  · cases submits
  · cases submits
  · simp only at submits
    split at submits
    · cases submits
    · exact (Reading.submission.inj submits).symm

/-- What is shown of a rejected submission are its problems. -/
theorem rejected_eq {session after : Session} {steps : Nat} {source : Syntax.Source}
    {submission : Submission} {evaluated : Evaluated} {diagnostics : List Diagnostic}
    {inputs : List String}
    (answered : session.submit steps inputs source = some (submission, evaluated, after))
    (rejected : evaluated.outcome = .rejected diagnostics) :
    diagnostics = (Submission.compile session.chain session.nextId source).1.diagnostics := by
  obtain ⟨rfl, memory, run, -⟩ := Session.exists_of_submit answered
  rw [rejected] at run
  by_cases clean : (session.compile source).1.diagnostics = []
  · obtain ⟨result, -, outcome⟩ := (Submission.evaluate_eq_some_iff clean).1 run
    cases result <;> cases outcome
  · rw [Submission.evaluate_of_diagnostics clean] at run
    exact (Outcome.rejected.inj (Prod.mk.inj (Option.some.inj run)).1).symm

/-- Wherever the text of a submission is rejected, every problem is shown with its line and
a marker. The first caret of the marker stands behind the column of the place where the
problem begins by as many columns as the characters in front of it in the shown line take
further bytes, so it stands in that column exactly if all of them are of the ASCII range. -/
theorem caret_column_iff {pending line : String} {source : Syntax.Source}
    (submits : read pending line = .submission source) {session after : Session} {steps : Nat}
    {inputs : List String} {submission : Submission} {evaluated : Evaluated}
    (answered : session.submit steps inputs source = some (submission, evaluated, after))
    {diagnostics : List Diagnostic} (rejected : evaluated.outcome = .rejected diagnostics) :
    ∀ d ∈ diagnostics, ∃ title bar number before behind marker column,
      report source.text.toList d =
        [title, bar, String.ofList (label number ++ before ++ behind), marker] ∧
      Shown source.text.toList d.span.start before behind ∧
      column = (label number ++ before).length ∧
      marker.toList.idxOf? '^' = some (column + (width before - before.length)) ∧
      (marker.toList.idxOf? '^' = some column ↔ ∀ c ∈ before, c.toNat < 128) := by
  intro d hd
  obtain rfl := text_of_read submits
  rw [rejected_eq answered rejected] at hd
  have begins := Submission.diagnostics_begin _ session.chain session.nextId d hd
  have ended : (pending ++ line ++ "\n").toList.getLast? = some '\n' := by simp
  obtain ⟨before, behind, shown, offset, place⟩ := exists_shown begins ended
  obtain ⟨title, bar, number, carets, report_eq⟩ := report_eq shown offset
  have caret : (String.ofList (lead number (width before) ++ '^' :: carets)).toList.idxOf? '^' =
      some ((label number).length + width before) := by
    rw [String.toList_ofList, idxOf?_append_cons (caret_not_mem_lead _ _), length_lead]
  obtain ⟨further, same⟩ := column_eq (label number).length before
  refine ⟨title, bar, number, before, behind, _, _, report_eq, place, rfl, ?_, ?_⟩
  · rw [caret, List.length_append, further]
  · rw [caret, List.length_append, Option.some.injEq, same]

/-- A name that means nothing, behind a character of two bytes. -/
def accentedSample : Syntax.Source := .ofText "\x7b \"é\" x \x7d\n"

/-- Six characters and seven bytes of the shown line stand in front of the name, so the caret
stands one column behind it. -/
theorem caret_column_iff_accentedSample :
    read "" "\x7b \"é\" x \x7d" = .submission accentedSample ∧
    (∃ submission after, (Session.start (.ofSeed 0)).submit 0 heldInputs accentedSample =
      some (submission, ⟨.rejected [⟨.undefinedName "x", ⟨7, 8⟩⟩], [], heldInputs⟩, after)) ∧
    report accentedSample.text.toList ⟨.undefinedName "x", ⟨7, 8⟩⟩ =
      ["Error: UndefinedName (Variable 'x' doesn't exist.)", "  |", "1 | \x7b \"é\" x \x7d",
        "  | -------^"] ∧
    ∃ title bar number before behind marker column,
      report accentedSample.text.toList ⟨.undefinedName "x", ⟨7, 8⟩⟩ =
        [title, bar, String.ofList (label number ++ before ++ behind), marker] ∧
      Shown accentedSample.text.toList 7 before behind ∧
      column = (label number ++ before).length ∧
      marker.toList.idxOf? '^' = some (column + (width before - before.length)) ∧
      (marker.toList.idxOf? '^' = some column ↔ ∀ c ∈ before, c.toNat < 128) := by
  have submits : read "" "\x7b \"é\" x \x7d" = .submission accentedSample := rfl
  have answered : (Session.start (.ofSeed 0)).submit 0 heldInputs accentedSample =
      some (_, ⟨.rejected [⟨.undefinedName "x", ⟨7, 8⟩⟩], [], heldInputs⟩, _) := rfl
  exact ⟨submits, ⟨_, _, answered⟩, by decide,
    caret_column_iff submits answered rfl _ List.mem_cons_self⟩

end Repl

end Scriptlet
