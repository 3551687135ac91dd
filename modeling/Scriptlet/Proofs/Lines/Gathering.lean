import Scriptlet.Proofs.Evaluation.Inputs
import Scriptlet.Proofs.Lines.Trimming
import Scriptlet.Repl.Basic

/-!
# What becomes of the lines that are read

Between submissions, blank lines and commands are passed over; every other line begins
a submission, which takes all lines through the first one that is blank or leaves a text
that does not end too early. So the texts that are submitted and the text that is still
gathered are made of the lines that are read, in their order, less those passed over. Each
of these texts is evaluated in the session before the next line is read.
-/

namespace Scriptlet.Repl

open Text Syntax

/-- The text of some lines, with a line feed behind each of them. -/
def textOf (lines : List String) : String := String.join (lines.map (· ++ "\n"))

/-- There is nothing to be seen in the line. -/
def IsBlankLine (line : String) : Prop := ∀ c ∈ line.toList, isBlank c = true

/-- The line is blank or begins, behind blanks, with a number sign. -/
def IsAside (line : String) : Prop :=
  IsBlankLine line ∨ (trimStart line.toList).head? = some '#'

/-- Another line is waited for behind some lines: the last of them is not blank and their
text ends too early. -/
structure Waits (lines : List String) : Prop where
  visible : ∀ line ∈ lines.getLast?, ¬IsBlankLine line
  incomplete : (Source.ofText (textOf lines)).isIncomplete = true

/-- The lines begin a submission and another one is waited for behind each of them. -/
structure Unfinished (lines : List String) : Prop where
  begins : ∀ line ∈ lines.head?, ¬IsAside line
  waits : ∀ front, front ≠ [] → front <+: lines → Waits front

/-- The lines are a submission, which ends at the first of them behind which no other one is
waited for. -/
structure Finished (lines : List String) : Prop where
  nonempty : lines ≠ []
  begins : ∀ line ∈ lines.head?, ¬IsAside line
  waits : ∀ front, front ≠ [] → front <+: lines → front ≠ lines → Waits front
  ends : ¬Waits lines

/-- A part of what is read: a line between submissions that is passed over, or the lines of a
submission. -/
inductive Passage where
  | aside (line : String)
  | submission (lines : List String)

namespace Passage

/-- The lines of a passage. -/
def lines : Passage → List String
  | aside line => [line]
  | submission lines => lines

/-- The lines of a passage that are not passed over. -/
def kept : Passage → List String
  | aside _ => []
  | submission lines => lines

/-- The text that is submitted. -/
def text? : Passage → Option String
  | aside _ => none
  | submission lines => some (textOf lines)

/-- Only asides are passed over, and submissions are finished. -/
def Proper : Passage → Prop
  | aside line => IsAside line
  | submission lines => Finished lines

end Passage

/-! ### Texts of lines -/

variable {group : List String} {line : String}

@[simp] theorem textOf_nil : textOf [] = "" := rfl

theorem toList_textOf (lines : List String) :
    (textOf lines).toList = lines.flatMap fun line => line.toList ++ ['\n'] := by
  simp [textOf, String.toList_join, List.flatMap_map]

/-- The text of lines in front of others comes first. -/
theorem textOf_append (lines lines' : List String) :
    textOf (lines ++ lines') = textOf lines ++ textOf lines' := by
  rw [← String.toList_inj, String.toList_append, toList_textOf, toList_textOf, toList_textOf,
    List.flatMap_append]

/-- A line is added with its line feed. -/
theorem textOf_concat (group : List String) (line : String) :
    textOf (group ++ [line]) = textOf group ++ line ++ "\n" := by
  rw [textOf_append, String.append_assoc]
  rfl

/-- Only no lines have an empty text. -/
theorem isEmpty_textOf (group : List String) : (textOf group).isEmpty = group.isEmpty := by
  cases group with
  | nil => rfl
  | cons line group =>
    rw [List.isEmpty_cons, Bool.eq_false_iff, ne_eq, String.isEmpty_iff, ← String.toList_inj,
      toList_textOf]
    simp

/-! ### What a line means behind others -/

/-- A line between blanks is nothing or begins with a number sign exactly if it is an
aside. -/
theorem isAside_iff (line : String) : IsAside line ↔
    trim line.toList = [] ∨ ∃ name, trim line.toList = '#' :: name := by
  rw [IsAside, IsBlankLine, ← head?_trim, ← trim_eq_nil_iff, List.head?_eq_some_iff]

/-- Behind the lines gathered so far, a line means one of four things. -/
inductive Step (group : List String) (line : String) : Reading → Prop
  | ignored (between : group = []) (aside : IsAside line) : Step group line .ignored
  | command {name : List Char} (between : group = [])
      (marked : trim line.toList = '#' :: name) : Step group line (.command (String.ofList name))
  | pending (begins : group = [] → ¬IsAside line) (waits : Waits (group ++ [line])) :
      Step group line (.pending (textOf (group ++ [line])))
  | submission (begins : group = [] → ¬IsAside line) (ends : ¬Waits (group ++ [line])) :
      Step group line (.submission (.ofText (textOf (group ++ [line]))))

/-- Lines that are ignored and commands are asides between submissions. -/
theorem Step.aside {name : String} (h : Step group line (.command name)) :
    group = [] ∧ IsAside line := by
  cases h with
  | command between marked => exact ⟨between, (isAside_iff line).2 (.inr ⟨_, marked⟩)⟩

/-- Reading a line behind the lines gathered so far gives what it means. -/
theorem step_read (group : List String) (line : String) :
    Step group line (read (textOf group) line) := by
  have blank : line.toList.all isBlank = true ↔ IsBlankLine line := List.all_eq_true
  unfold read
  rw [isEmpty_textOf]
  split
  next between trimmed =>
    exact .ignored (List.isEmpty_iff.1 between) ((isAside_iff line).2 (.inl trimmed))
  next name between trimmed => exact .command (List.isEmpty_iff.1 between) trimmed
  next unmarked marked =>
    have begins : group = [] → ¬IsAside line := by
      rintro rfl aside
      rcases (isAside_iff line).1 aside with trimmed | ⟨name, trimmed⟩
      · exact unmarked rfl trimmed
      · exact marked name rfl trimmed
    simp only [← textOf_concat]
    split
    next waits =>
      rw [Bool.and_eq_true, Bool.not_eq_true', ← Bool.not_eq_true, blank] at waits
      exact .pending begins ⟨by simpa using waits.1, waits.2⟩
    next ends =>
      refine .submission begins fun waits => ends ?_
      rw [Bool.and_eq_true, Bool.not_eq_true', ← Bool.not_eq_true, blank]
      exact ⟨waits.visible line (by simp), waits.incomplete⟩

/-- Behind no lines, none is waited for yet. -/
theorem unfinished_nil : Unfinished [] :=
  ⟨nofun, fun _ some front => absurd (List.prefix_nil.1 front) some⟩

/-- A first line is one of the lines gathered or the line behind them. -/
theorem Unfinished.begins_concat (h : Unfinished group) (begins : group = [] → ¬IsAside line) :
    ∀ first ∈ (group ++ [line]).head?, ¬IsAside first := by
  cases group with
  | nil => exact fun first hfirst => Option.some.inj hfirst ▸ begins rfl
  | cons first group => exact h.begins

/-- If a line is waited for behind the next one too, the lines are still unfinished. -/
theorem Unfinished.concat (h : Unfinished group) (begins : group = [] → ¬IsAside line)
    (waits : Waits (group ++ [line])) : Unfinished (group ++ [line]) := by
  refine ⟨h.begins_concat begins, fun front some hfront => ?_⟩
  rcases List.prefix_concat_iff.1 hfront with rfl | hfront
  · exact waits
  · exact h.waits front some hfront

/-- If no line is waited for behind the next one, the lines are a submission. -/
theorem Unfinished.finish (h : Unfinished group) (begins : group = [] → ¬IsAside line)
    (ends : ¬Waits (group ++ [line])) : Finished (group ++ [line]) := by
  refine ⟨by simp, h.begins_concat begins, fun front some hfront proper => ?_, ends⟩
  rcases List.prefix_concat_iff.1 hfront with rfl | hfront
  · exact absurd rfl proper
  · exact h.waits front some hfront

/-! ### What a submission comes to -/

/-- In a state, the session evaluates the text of a submission, which comes to its end and takes
no line, whatever there is to be read. The reply tells the outcome and goes on behind it. -/
def Evaluates (r : Repl) (steps : Nat) (s : Submission) (reply : Reply) : Prop :=
  ∃ (evaluated : Evaluated) (session : Session),
    (∀ inputs, r.session.submit steps inputs s.source =
      some (s, { evaluated with inputsLeft := inputs }, session)) ∧
    reply = ⟨r.preview s ++ String.join (evaluated.printed.map Repl.line) ++
      verdict s evaluated.outcome, some s, some { r with session, pending := "" }⟩

/-- In a state, a submission of a source is still running after the steps or takes the line that
is held out to it. -/
def Hangs (r : Repl) (steps : Nat) (source : Source) : Prop :=
  ∀ s evaluated session, r.session.submit steps heldInputs source = some (s, evaluated, session) →
    evaluated.inputsLeft ≠ heldInputs

variable {r : Repl} {steps : Nat} {reply : Reply}

/-- A source has no answer only if its submission hangs. -/
theorem hangs_of_submit {source : Source} (h : r.submit steps source = none) :
    r.Hangs steps source := by
  intro s evaluated session ends left
  rw [submit, ends, Option.bind_some] at h
  exact absurd ((if_pos left).symm.trans h) nofun

/-- A source that is submitted with an answer is evaluated. -/
theorem evaluates_of_submit {source : Source} (h : r.submit steps source = some reply) :
    ∃ s : Submission, s.source = source ∧ r.Evaluates steps s reply := by
  obtain ⟨⟨s, evaluated, session⟩, answered, h⟩ := Option.bind_eq_some_iff.1 h
  have same : s.source = source := by
    rw [Session.submit_eq, Option.map_eq_some_iff] at answered
    obtain ⟨ending, -, ends⟩ := answered
    rw [← (Prod.mk.inj ends).1]
    rfl
  dsimp only at h
  split at h
  next left =>
    refine ⟨s, same, evaluated, session, fun inputs => ?_, (Option.some.inj h).symm⟩
    rw [same]
    exact Session.submit_of_inputsLeft answered left (List.cons_ne_nil _ _) inputs
  next => cases h

/-- Only one command ends a conversation. No command submits anything, and none of the others
touches what is gathered. -/
theorem command_cases (r : Repl) (name : String) :
    (r.command name).submission? = none ∧
      (name = "exit" ∧ (r.command name).next? = none ∨
        ∃ next, (r.command name).next? = some next ∧ next.pending = r.pending) := by
  unfold command
  split
  case h_5 => exact ⟨rfl, .inl ⟨rfl, rfl⟩⟩
  all_goals exact ⟨rfl, .inr ⟨_, rfl, rfl⟩⟩

/-- The answer to a line tells of a submission that is evaluated in the state in which the line
is read, or submits nothing. Then it goes on unless the line ends the conversation. -/
theorem answer_cases (answered : r.answer steps line = some reply) :
    (∃ s, reply.submission? = some s ∧ r.Evaluates steps s reply) ∨
      reply.submission? = none ∧
        (read r.pending line = .command "exit" ∨ ∃ next, reply.next? = some next) := by
  rw [answer] at answered
  cases reading : read r.pending line with
  | ignored | pending =>
    rw [reading] at answered
    cases answered
    exact .inr ⟨rfl, .inr ⟨_, rfl⟩⟩
  | command name =>
    rw [reading] at answered
    obtain rfl := Option.some.inj answered
    obtain ⟨silent, ⟨rfl, -⟩ | ⟨next, goesOn, -⟩⟩ := command_cases r name
    · exact .inr ⟨silent, .inl rfl⟩
    · exact .inr ⟨silent, .inr ⟨next, goesOn⟩⟩
  | submission source =>
    rw [reading] at answered
    obtain ⟨s, -, evaluates⟩ := evaluates_of_submit answered
    obtain ⟨_, _, _, rfl⟩ := id evaluates
    exact .inl ⟨s, rfl, evaluates⟩

/-- What the answer to a line submits is evaluated. -/
theorem evaluates_of_answer {s : Submission} (answered : r.answer steps line = some reply)
    (submitted : reply.submission? = some s) : r.Evaluates steps s reply := by
  obtain ⟨s', submitted', evaluates⟩ | ⟨silent, -⟩ := answer_cases answered
  · obtain rfl := Option.some.inj (submitted'.symm.trans submitted)
    exact evaluates
  · rw [silent] at submitted
    cases submitted

/-! ### Conversations -/

/-- Every exchange of a conversation is a line and the answer to it. -/
theorem answer_of_mem_exchanges {e : Exchange} {lines : List String}
    (he : e ∈ (r.converse steps lines).exchanges) :
    e.asked.answer steps e.input = some e.reply := by
  fun_induction converse r steps lines with
  | case1 => cases he
  | case2 => cases he
  | case3 r line lines reply answered =>
    obtain rfl := List.mem_singleton.1 he
    exact answered
  | case4 r line lines reply answered next goesOn later ih =>
    rcases List.mem_cons.1 he with rfl | he
    · exact answered
    · exact ih he

namespace Conversation

/-- The texts that are submitted, in their order. -/
def texts (c : Conversation) : List String := c.submissions.map fun s => s.source.text

/-- A conversation accounts for lines: they are passages, one behind the other, the unfinished
lines behind them and the lines that are not answered. The texts submitted are those of the
passages, and the text gathered is that of the unfinished lines. If the conversation is stuck,
the next line finishes them, and it is their submission that hangs. -/
structure AccountsFor (c : Conversation) (steps : Nat) (lines : List String)
    (passages : List Passage) (rest : List String) : Prop where
  lines_eq : lines = passages.flatMap Passage.lines ++ rest ++ c.unanswered
  proper : ∀ p ∈ passages, p.Proper
  unfinished : Unfinished rest
  texts_eq : c.texts = passages.filterMap Passage.text?
  pending_eq : c.pending = textOf rest
  stuck : c.isStuck = true → ∃ r ∈ c.last?, ∃ line ∈ c.unanswered.head?,
    Finished (rest ++ [line]) ∧ r.Hangs steps (.ofText (textOf (rest ++ [line])))

variable {c : Conversation} {lines : List String} {passages : List Passage} {rest : List String}
  {e : Exchange}

/-- The text that a line submits comes first. -/
theorem texts_cons (e : Exchange) (c : Conversation) :
    texts { c with exchanges := e :: c.exchanges } =
      (e.reply.submission?.map fun s => s.source.text).toList ++ c.texts := by
  simp only [texts, submissions, List.filterMap_cons]
  cases e.reply.submission? <;> rfl

/-- A line is passed over in front of other passages. -/
theorem AccountsFor.aside (h : c.AccountsFor steps lines passages rest) (aside : IsAside line)
    (silent : e.reply.submission? = none) :
    AccountsFor { c with exchanges := e :: c.exchanges } steps (line :: lines)
      (.aside line :: passages) rest := by
  refine ⟨by rw [h.lines_eq]; rfl, List.forall_mem_cons.2 ⟨aside, h.proper⟩, h.unfinished, ?_,
    h.pending_eq, h.stuck⟩
  rw [texts_cons, silent]
  exact h.texts_eq

/-- A line is gathered in front of what is accounted for. -/
theorem AccountsFor.gather (h : c.AccountsFor steps lines passages rest)
    (silent : e.reply.submission? = none) :
    AccountsFor { c with exchanges := e :: c.exchanges } steps lines passages rest := by
  refine ⟨h.lines_eq, h.proper, h.unfinished, ?_, h.pending_eq, h.stuck⟩
  rw [texts_cons, silent]
  exact h.texts_eq

/-- Lines are submitted in front of other passages. -/
theorem AccountsFor.submission {s : Submission} (h : c.AccountsFor steps lines passages rest)
    (finished : Finished group) (submitted : e.reply.submission? = some s)
    (text : s.source.text = textOf group) :
    AccountsFor { c with exchanges := e :: c.exchanges } steps (group ++ lines)
      (.submission group :: passages) rest := by
  refine ⟨by simp [h.lines_eq, Passage.lines], List.forall_mem_cons.2 ⟨finished, h.proper⟩,
    h.unfinished, ?_, h.pending_eq, h.stuck⟩
  rw [texts_cons, submitted, Option.map_some, text]
  exact congrArg (textOf group :: ·) h.texts_eq

end Conversation

/-- From unfinished lines on, whatever is read is accounted for together with them. -/
theorem exists_accountsFor (r : Repl) (steps : Nat) (lines : List String)
    (gathered : r.pending = textOf group) (unfinished : Unfinished group) :
    ∃ passages rest, (r.converse steps lines).AccountsFor steps (group ++ lines) passages rest := by
  induction lines generalizing r group with
  | nil =>
    exact ⟨[], group, by simp [converse], List.forall_mem_nil _, unfinished, rfl, gathered, nofun⟩
  | cons line lines ih =>
    have step := step_read group line
    rw [← gathered] at step
    rw [converse, answer]
    cases reading : read r.pending line with
    | ignored =>
      rw [reading] at step
      obtain ⟨rfl, aside⟩ := step
      obtain ⟨passages, rest, later⟩ := ih r gathered unfinished
      exact ⟨_, _, later.aside aside rfl⟩
    | command name =>
      rw [reading] at step
      obtain ⟨rfl, aside⟩ := step.aside
      dsimp only
      obtain ⟨silent, ⟨-, stops⟩ | ⟨next, goesOn, kept⟩⟩ := command_cases r name
      · rw [stops]
        have ended : (⟨[], none, lines⟩ : Conversation).AccountsFor steps lines [] [] :=
          ⟨rfl, List.forall_mem_nil _, unfinished_nil, rfl, rfl, nofun⟩
        exact ⟨_, _, ended.aside aside silent⟩
      · rw [goesOn]
        obtain ⟨passages, rest, later⟩ := ih next (kept.trans gathered) unfinished
        exact ⟨_, _, later.aside aside silent⟩
    | pending text =>
      rw [reading] at step
      cases step with
      | pending begins waits =>
        obtain ⟨passages, rest, later⟩ := ih { r with pending := _ } rfl
          (unfinished.concat begins waits)
        rw [← List.append_cons] at later
        exact ⟨passages, rest, later.gather rfl⟩
    | submission source =>
      rw [reading] at step
      cases step with
      | submission begins ends =>
        have finished := unfinished.finish begins ends
        dsimp only
        cases answered : r.submit steps (.ofText (textOf (group ++ [line]))) with
        | none =>
          exact ⟨[], group, rfl, List.forall_mem_nil _, unfinished, rfl, gathered,
            fun _ => ⟨r, rfl, line, rfl, finished, hangs_of_submit answered⟩⟩
        | some reply =>
          obtain ⟨s, source, evaluated, session, -, rfl⟩ := evaluates_of_submit answered
          obtain ⟨passages, rest, later⟩ :=
            ih { r with session, pending := "" } textOf_nil.symm unfinished_nil
          rw [List.append_cons group line lines]
          exact ⟨_, _, later.submission finished rfl (congrArg Source.text source)⟩

/-- A command is what stands in its line between blanks, behind the number sign. -/
theorem trim_of_read {pending name : String} (h : read pending line = .command name) :
    trim line.toList = '#' :: name.toList := by
  unfold read at h
  split at h
  · cases h
  · next marked =>
    cases h
    rw [marked, String.toList_ofList]
  · simp only at h
    split at h <;> cases h

/-- A reply ends a conversation only if the line is the command that ends it. -/
theorem trim_of_next? (answered : r.answer steps line = some reply) (stops : reply.next? = none) :
    trim line.toList = '#' :: "exit".toList := by
  obtain ⟨s, -, _, _, -, rfl⟩ | ⟨-, reading | ⟨next, goesOn⟩⟩ := answer_cases answered
  · cases stops
  · exact trim_of_read reading
  · rw [goesOn] at stops
    cases stops

/-- A conversation is over only behind a line that ends it. -/
theorem exists_exit {lines : List String} (ended : (r.converse steps lines).last? = none) :
    ∃ line ∈ lines, trim line.toList = '#' :: "exit".toList := by
  fun_induction converse r steps lines with
  | case1 => cases ended
  | case2 => cases ended
  | case3 r line lines reply answered stops =>
    exact ⟨line, List.mem_cons_self, trim_of_next? answered stops⟩
  | case4 r line lines reply answered next goesOn later ih =>
    obtain ⟨exit, hexit, ends⟩ := ih ended
    exact ⟨exit, List.mem_cons_of_mem _ hexit, ends⟩

/-- All lines are answered if none of them ends the conversation and no submission keeps it from
going on. -/
theorem unanswered_eq_nil {lines : List String}
    (staying : ∀ line ∈ lines, trim line.toList ≠ '#' :: "exit".toList)
    (unstuck : (r.converse steps lines).isStuck = false) :
    (r.converse steps lines).unanswered = [] := by
  cases last : (r.converse steps lines).last? with
  | none =>
    obtain ⟨line, hline, exit⟩ := exists_exit last
    exact absurd exit (staying line hline)
  | some next => simpa [Conversation.isStuck, last] using unstuck

/-- The texts of passages, one behind the other, are the text of the lines kept. -/
theorem join_texts (passages : List Passage) :
    String.join (passages.filterMap Passage.text?) = textOf (passages.flatMap Passage.kept) := by
  induction passages with
  | nil => rfl
  | cons p passages ih =>
    cases p with
    | aside line => exact ih
    | submission lines =>
      have first : (Passage.submission lines).text? = some (textOf lines) := rfl
      rw [List.filterMap_cons_some first, String.join_cons, ih, List.flatMap_cons, textOf_append]
      rfl

/-- Whatever lines are read, they are passages and unfinished lines behind them: asides are
passed over, and the texts submitted, each of which ends where no further line is waited for,
and the text that is still gathered are those of all other lines, in their order. Every text
that is submitted is evaluated by the session and answered by what came of it. All lines are
answered unless one of them ends the conversation or a submission hangs. -/
theorem lines_become_submissions (draws : Draws) (steps : Nat) (lines : List String) :
    let c := (start draws).converse steps lines
    (∃ passages rest, c.AccountsFor steps lines passages rest ∧
      String.join c.texts ++ c.pending = textOf (passages.flatMap Passage.kept ++ rest)) ∧
    (∀ e ∈ c.exchanges, ∀ s ∈ e.reply.submission?, e.asked.Evaluates steps s e.reply) ∧
    ((∀ line ∈ lines, trim line.toList ≠ '#' :: "exit".toList) → c.isStuck = false →
      c.unanswered = []) := by
  refine ⟨?_, fun e he s submitted => ?_, unanswered_eq_nil⟩
  · obtain ⟨passages, rest, h⟩ :=
      exists_accountsFor (start draws) steps lines textOf_nil.symm unfinished_nil
    refine ⟨passages, rest, h, ?_⟩
    rw [h.texts_eq, h.pending_eq, join_texts, textOf_append]
  · exact evaluates_of_answer (answer_of_mem_exchanges he) submitted

/-- A loop that does nothing for ever. -/
def endlessSample : Source := .ofText "while true \x7b \x7d\n"

/-- The loop never comes to its end. -/
theorem submit_endlessSample (draws : Draws) (steps : Nat) (inputs : List String) :
    (Session.start draws).submit steps inputs endlessSample = none := by
  let compiled := ((Session.start draws).compile endlessSample).1
  have statement : compiled.statement = .whileLoop (.literal (.bool true)) (.block []) := rfl
  have clean : compiled.diagnostics = [] := rfl
  have structured : compiled.statement.Structured := statement ▸ .whileLoop _ _ (.block [] nofun)
  have endless (rounds : Nat) (memory : Memory) :
      Meaning.loop (Bound.Expr.literal (.bool true)).holds .skip rounds .void memory = none := by
    induction rounds with
    | zero => rfl
    | succ rounds ih => exact ih
  rw [Session.submit_eq, Option.map_eq_none_iff, Option.eq_none_iff_forall_ne_some]
  rintro ⟨outcome, memory⟩ ends
  obtain ⟨rounds, result, means, -⟩ :=
    (Submission.exists_evaluate_iff_interpret clean structured).1 ⟨steps, ends⟩
  rw [statement] at means
  exact absurd (means.symm.trans (endless rounds _)) nofun

/-- The line of the loop has no answer. -/
theorem answer_endlessSample (draws : Draws) (steps : Nat) :
    (start draws).answer steps "while true \x7b \x7d" = none := by
  have reading : read "" "while true \x7b \x7d" = .submission endlessSample := rfl
  rw [answer, show (start draws).pending = "" from rfl, reading]
  exact Option.bind_eq_none_iff.2 fun _ ends =>
    absurd ((submit_endlessSample draws steps heldInputs).symm.trans ends) nofun

/-- A block that is still open when the input ends is never submitted, though its line is no
aside and ends no conversation. Nor is a line behind a loop that never comes to its end. -/
theorem openBlock_not_submitted :
    ((∀ line ∈ ["\x7b"], trim line.toList ≠ '#' :: "exit".toList) ∧
      ((start (.ofSeed 0)).converse 1 ["\x7b"]).isStuck = false ∧
      ¬∃ passages : List Passage, ["\x7b"] = passages.flatMap Passage.lines ∧
        (∀ p ∈ passages, p.Proper) ∧
        String.join ((start (.ofSeed 0)).converse 1 ["\x7b"]).texts =
          textOf (passages.flatMap Passage.kept)) ∧
    ∀ steps, ((start (.ofSeed 0)).converse steps ["while true \x7b \x7d", "1"]).unanswered =
      ["while true \x7b \x7d", "1"] := by
  refine ⟨⟨by decide, by decide, ?_⟩, fun steps => ?_⟩
  case refine_2 => rw [converse, answer_endlessSample]
  rintro ⟨passages, lines_eq, proper, same⟩
  have none : textOf (passages.flatMap Passage.kept) = "" := by
    rw [← same]
    decide
  obtain ⟨p, hp, hline⟩ := List.mem_flatMap.1 (lines_eq ▸ List.mem_singleton_self "\x7b")
  cases p with
  | aside line =>
    obtain rfl := List.mem_singleton.1 hline
    rcases proper _ hp with blank | marked
    · exact absurd (blank '\x7b' (by decide)) (by decide)
    · exact absurd marked (by decide)
  | submission lines =>
    have kept : "\x7b" ∈ passages.flatMap Passage.kept := List.mem_flatMap.2 ⟨_, hp, hline⟩
    have empty := isEmpty_textOf (passages.flatMap Passage.kept)
    rw [none, List.isEmpty_eq_false_iff.2 (List.ne_nil_of_mem kept)] at empty
    cases empty

/-- A blank line and a command are passed over, and the last line is still gathered. -/
example :
    let c := (start (.ofSeed 0)).converse 9 ["", "#cls", "\x7b", "2", "\x7d", "1 +"]
    (c.texts, c.pending, c.unanswered) = (["\x7b\n2\n\x7d\n"], "1 +\n", []) := rfl

/-- A submission that wants to read a line is not answered, and no line behind it is. -/
example :
    let c := (start (.ofSeed 0)).converse 9 ["2", "print(input())", "3"]
    (c.texts, c.isStuck, c.unanswered) = (["2\n"], true, ["print(input())", "3"]) := rfl

end Scriptlet.Repl
