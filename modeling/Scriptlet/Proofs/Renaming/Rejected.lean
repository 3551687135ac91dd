import Scriptlet.Proofs.Renaming.Sessions

/-!
# Submissions that stop leave no trace

A session answers submissions one after the other. A submission with problems is
resolved like any other, but of all it declares nothing stays except that
identities are used up. So the other answers of a session do not change if such
a submission is put in anywhere, except for the identities of variables that are
declared later. A submission that runs into a fault may have changed the store,
but the next one is compiled as if it had not been there.
-/

namespace Scriptlet

/-- What a session is asked for. -/
inductive Entry where
  /-- To compile a text and run it on some inputs, for a number of steps at most. -/
  | submit (text : String) (inputs : List String) (steps : Nat)
  /-- To forget all values and the chain. -/
  | reset

/-- What a session answers. -/
structure Answer where
  /-- All that is wrong with the submission. -/
  diagnostics : List Diagnostic
  /-- What evaluating it gave. There is nothing to evaluate in a reset. -/
  evaluated? : Option Evaluated
  /-- The store behind it. -/
  store : Store

/-- The answer with the identities of all variables renamed. -/
def Answer.rename (f : Nat → Nat) (a : Answer) : Answer := { a with store := a.store.rename f }

namespace Session

open Scriptlet.Bound Submission

/-- Answers an entry. There is no answer if the submission is still running
after its steps. -/
def answer (s : Session) : Entry → Option (Answer × Session)
  | .submit text inputs steps =>
    (s.submit steps inputs (.ofText text)).map fun (submission, evaluated, after) =>
      (⟨submission.diagnostics, some evaluated, after.store⟩, after)
  | .reset => some (⟨[], none, s.reset.store⟩, s.reset)

/-- Answers entries one after the other; gives the session behind them as well. -/
def answerAll (s : Session) : List Entry → Option (List Answer × Session)
  | [] => some ([], s)
  | entry :: entries =>
    (s.answer entry).bind fun (first, after) =>
      (after.answerAll entries).map fun (rest, last) => (first :: rest, last)

/-- The answers to entries one after the other. -/
def answers (s : Session) (entries : List Entry) : Option (List Answer) :=
  (s.answerAll entries).map Prod.fst

/-- The answer to a text with problems. -/
def rejection (s : Session) (text : String) (inputs : List String) : Answer :=
  let problems := (s.compile (.ofText text)).1.diagnostics
  ⟨problems, some ⟨.rejected problems, [], inputs⟩, s.store⟩

variable {f : Nat → Nat} {s s' after : Session} {given : List Answer} {entries later : List Entry}
  {entry : Entry} {first : Answer}

/-- Answering entries begins with the first one and goes on behind it. -/
theorem exists_of_answerAll_cons (h : s.answerAll (entry :: entries) = some (given, after)) :
    ∃ first next rest, s.answer entry = some (first, next) ∧
      next.answerAll entries = some (rest, after) ∧ given = first :: rest := by
  rw [answerAll, Option.bind_eq_some_iff] at h
  obtain ⟨⟨first, next⟩, hfirst, hrest⟩ := h
  rw [Option.map_eq_some_iff] at hrest
  obtain ⟨⟨rest, last⟩, hrest, hgiven⟩ := hrest
  cases hgiven
  exact ⟨first, next, rest, hfirst, hrest, rfl⟩

/-- An answer stands before the answers that the session behind it gives. -/
theorem answers_cons (h : s.answer entry = some (first, after)) (later : List Entry) :
    s.answers (entry :: later) = (after.answers later).map (first :: ·) := by
  simp only [answers, answerAll, h, Option.bind_some, Option.map_map]
  rfl

/-- Answers to two lists of entries are given one list after the other. -/
theorem answers_append (reached : s.answerAll entries = some (given, after)) (later : List Entry) :
    s.answers (entries ++ later) = (after.answers later).map (given ++ ·) := by
  induction entries generalizing s given with
  | nil =>
    cases reached
    exact Option.map_id'.symm
  | cons entry entries ih =>
    obtain ⟨first, next, rest, hfirst, hrest, rfl⟩ := exists_of_answerAll_cons reached
    rw [List.cons_append, answers_cons hfirst, ih hrest, Option.map_map]
    rfl

/-- There is one answer to every entry. -/
theorem length_of_answerAll (reached : s.answerAll entries = some (given, after)) :
    given.length = entries.length := by
  induction entries generalizing s given with
  | nil =>
    cases reached
    rfl
  | cons entry entries ih =>
    obtain ⟨first, next, rest, hfirst, hrest, rfl⟩ := exists_of_answerAll_cons reached
    rw [List.length_cons, List.length_cons, ih hrest]

/-- An answer uses identities up, and no others. -/
theorem Fresh.answer (h : s.Fresh) (hanswer : s.answer entry = some (first, after)) :
    after.Fresh := by
  cases entry with
  | reset =>
    cases hanswer
    exact fresh_reset s
  | submit text inputs steps =>
    rw [Session.answer, Option.map_eq_some_iff] at hanswer
    obtain ⟨⟨submission, evaluated, behind⟩, hsubmit, hgiven⟩ := hanswer
    cases hgiven
    exact h.submit hsubmit

/-- In a session that began with an empty store no identity from the next one on
is in use, whatever was answered. -/
theorem Fresh.answerAll (h : s.Fresh) (reached : s.answerAll entries = some (given, after)) :
    after.Fresh := by
  induction entries generalizing s given with
  | nil =>
    cases reached
    exact h
  | cons entry entries ih =>
    obtain ⟨first, next, rest, hfirst, hrest, rfl⟩ := exists_of_answerAll_cons reached
    exact ih (h.answer hfirst) hrest

/-- Sessions that differ by a renaming answer an entry alike, and differ by it
afterwards. -/
theorem Renames.answer (h : Renames f s s') (injective : f.Injective) (entry : Entry) :
    Option.Rel (fun given given' => given'.1 = given.1.rename f ∧ Renames f given.2 given'.2)
      (s.answer entry) (s'.answer entry) := by
  cases entry with
  | reset => exact .some ⟨rfl, h.reset⟩
  | submit text inputs steps =>
    have alike := h.submit injective steps inputs (.ofText text)
    rw [Session.answer, Session.answer]
    generalize s.submit steps inputs (.ofText text) = given at alike ⊢
    generalize s'.submit steps inputs (.ofText text) = given' at alike ⊢
    cases alike with
    | none => exact .none
    | some same =>
      obtain ⟨submission, evaluated, behind⟩ := same
      refine .some ⟨?_, behind⟩
      simp only [Answer.rename, submission, evaluated, behind.store]
      rfl

/-- Sessions that differ by a renaming give the same answers up to it. -/
theorem Renames.answers (h : Renames f s s') (injective : f.Injective) (entries : List Entry) :
    s'.answers entries = (s.answers entries).map (List.map (·.rename f)) := by
  induction entries generalizing s s' with
  | nil => rfl
  | cons entry entries ih =>
    have alike := h.answer injective entry
    cases hgiven : s.answer entry with
    | none =>
      rw [hgiven] at alike
      generalize hgiven' : s'.answer entry = given' at alike
      cases alike
      simp only [Session.answers, answerAll, hgiven, hgiven', Option.bind_none, Option.map_none]
    | some given =>
      rw [hgiven] at alike
      generalize hgiven' : s'.answer entry = given' at alike
      cases alike with
      | @some _ given' same =>
        have others := ih same.2
        rw [answers_cons hgiven, answers_cons hgiven', others, same.1, Option.map_map,
          Option.map_map]
        rfl

/-- A text with problems is rejected, and identities are used up. -/
theorem answer_of_diagnostics {text : String}
    (problems : (s.compile (.ofText text)).1.diagnostics ≠ []) (inputs : List String)
    (steps : Nat) :
    ∃ distance, s.answer (.submit text inputs steps) =
      some (s.rejection text inputs, { s with nextId := s.nextId + distance }) := by
  have grows : s.nextId ≤ (s.compile (.ofText text)).2.nextId :=
    nextId_le_compile s.chain s.nextId (.ofText text)
  obtain ⟨distance, hdistance⟩ := Nat.exists_eq_add_of_le grows
  refine ⟨distance, ?_⟩
  rw [answer, submit_of_diagnostics problems, ← hdistance]
  rfl

/-- Answers do not depend on submissions that do not run to their end. Let a
session with an empty store have answered some entries, and let a text be put in
behind them. If the text has problems, it is rejected, and all other answers are
those of the session without it: the earlier ones are the same, and the later
ones are so up to a renaming of the variables, one to one, by which their stores
may differ. If it has none and fails, the chain stays, everything visible stays,
and whatever is submitted next is reported on as it would have been. -/
theorem answers_independent_of_stopped {draws : Draws} {before : List Entry}
    {earlier : List Answer} (reached : (start draws).answerAll before = some (earlier, s))
    (text : String) (inputs : List String) (steps : Nat) :
    ((s.compile (.ofText text)).1.diagnostics ≠ [] →
      ∃ f : Nat → Nat, f.Injective ∧ ∀ later : List Entry,
        (start draws).answers (before ++ .submit text inputs steps :: later) =
          ((start draws).answers (before ++ later)).map fun given =>
            given.take before.length ++
              s.rejection text inputs :: (given.drop before.length).map (·.rename f)) ∧
    ∀ submission evaluated after fault,
      s.submit steps inputs (.ofText text) = some (submission, evaluated, after) →
      evaluated.outcome = .failed fault →
      after.chain = s.chain ∧ symbols after.chain = symbols s.chain ∧
        ∀ next : String, (after.compile (.ofText next)).1.diagnostics =
          (s.compile (.ofText next)).1.diagnostics := by
  have fresh : s.Fresh := (fresh_start draws).answerAll reached
  constructor
  · intro problems
    obtain ⟨distance, rejected⟩ := answer_of_diagnostics problems inputs steps
    have injective := shift_injective s.nextId distance
    refine ⟨shift s.nextId distance, injective, fun later => ?_⟩
    have others := (fresh.renames_shift distance).answers injective later
    rw [answers_append reached, answers_append reached, answers_cons rejected, others,
      ← length_of_answerAll reached]
    simp only [Option.map_map, Function.comp_def, List.take_left, List.drop_left]
  · intro submission evaluated after fault run failed
    obtain ⟨rfl, memory, hrun, rfl⟩ := exists_of_submit run
    rw [failed]
    refine ⟨rfl, rfl, fun next => ?_⟩
    have grows := nextId_le_compile s.chain s.nextId (.ofText text)
    exact compile_diagnostics_eq fresh.ordered.idsBelow.1 grows (.ofText next)

/-- An integer variable with an identity and a name. -/
def counter (id : Nat) (name : String) : Variable := ⟨id, name, .int, false⟩

/-- The answer to a submission without problems that has a value. -/
def valued (value : Value) (entries : List (Variable × Value)) : Answer :=
  ⟨[], some ⟨.finished value, [], []⟩, ⟨entries⟩⟩

/-- The session behind a submission that declares a variable. -/
def countingSample : Session where
  chain := [((start (.ofSeed 0)).compile (.ofText "a = 1")).1]
  store := ⟨[(counter 0 "a", .int 1)]⟩
  nextId := 1
  draws := .ofSeed 0

/-- A variable is declared behind a block that declares another one and uses a
third one, which is unknown. Its identity may be moved, and nothing else. A
division by zero at the same place leaves the name unknown that is given its
value. -/
theorem answers_independent_of_stopped_countingSample :
    (start (.ofSeed 0)).answerAll [.submit "a = 1" [] 2] =
      some ([valued (.int 1) [(counter 0 "a", .int 1)]], countingSample) ∧
    (countingSample.compile (.ofText "\x7b var y = 1 x \x7d")).1.diagnostics =
      [⟨.undefinedName "x", ⟨12, 13⟩⟩] ∧
    (∃ f : Nat → Nat, f.Injective ∧
      (start (.ofSeed 0)).answers
        [.submit "a = 1" [] 2, .submit "\x7b var y = 1 x \x7d" [] 2, .submit "b = a + 1" [] 2] =
      some [valued (.int 1) [(counter 0 "a", .int 1)],
        countingSample.rejection "\x7b var y = 1 x \x7d" [],
        (valued (.int 2) [(counter 0 "a", .int 1), (counter 1 "b", .int 2)]).rename f]) ∧
    ∃ submission evaluated after,
      countingSample.submit 2 [] (.ofText "c = 1 / 0") = some (submission, evaluated, after) ∧
      evaluated.outcome = .failed .divisionByZero ∧
      (after.compile (.ofText "c")).1.diagnostics = [⟨.undefinedName "c", ⟨0, 1⟩⟩] := by
  have reached : (start (.ofSeed 0)).answerAll [.submit "a = 1" [] 2] =
      some ([valued (.int 1) [(counter 0 "a", .int 1)]], countingSample) := rfl
  have problem : (countingSample.compile (.ofText "\x7b var y = 1 x \x7d")).1.diagnostics =
      [⟨.undefinedName "x", ⟨12, 13⟩⟩] := rfl
  have without : (start (.ofSeed 0)).answers [.submit "a = 1" [] 2, .submit "b = a + 1" [] 2] =
      some [valued (.int 1) [(counter 0 "a", .int 1)],
        valued (.int 2) [(counter 0 "a", .int 1), (counter 1 "b", .int 2)]] := rfl
  refine ⟨reached, problem, ?_, ?_⟩
  · obtain ⟨f, injective, others⟩ :=
      (answers_independent_of_stopped reached "\x7b var y = 1 x \x7d" [] 2).1 (by simp [problem])
    have whole := others [.submit "b = a + 1" [] 2]
    rw [List.singleton_append, List.singleton_append, without] at whole
    exact ⟨f, injective, whole⟩
  · have failing := (answers_independent_of_stopped reached "c = 1 / 0" [] 2).2
    exact ⟨_, _, _, rfl, rfl, ((failing _ _ _ _ rfl rfl).2.2 "c").trans rfl⟩

end Session

end Scriptlet
