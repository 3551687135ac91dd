import Mathlib.Data.Nat.Find
import Scriptlet.Proofs.Progress.Counting

/-!
# Parsing makes progress

A parse function that is called somewhere in the tokens ends before the next end of the
source or in front of it. It has read a token by then or reported the one at which it was
called. In a block every round reads one, so parsing takes a number of calls that grows
with the tokens no more than linearly.
-/

namespace Scriptlet.Syntax

open Reporting Event
open Scriptlet.Syntax.Parser

variable {α : Type} {tokens : List Token} {p e : Nat}

/-- The calls that read a statement or an expression, and not only a part of one. -/
def Call.ReadsTree : Call α → Prop
  | .statement | .expression | .operation _ => True
  | .extend .. | .operand | .arguments | .furtherArguments | .statements => False

/-- The first end of the source from a position on. -/
structure FirstEnd (tokens : List Token) (p e : Nat) : Prop where
  behind : p ≤ e
  ends : ∃ token ∈ tokens[e]?, token.kind = .eof
  first : ∀ i, p ≤ i → i < e → ∀ token ∈ tokens[i]?, token.kind ≠ .eof

/-- If the tokens end in an end of the source, there is one from every position on. -/
theorem exists_firstEnd (ended : ∃ last ∈ tokens.getLast?, last.kind = .eof)
    (inside : p < tokens.length) : ∃ e, FirstEnd tokens p e := by
  classical
  have some : ∃ e, p ≤ e ∧ ∃ token ∈ tokens[e]?, token.kind = .eof := by
    rw [List.getLast?_eq_getElem?] at ended
    exact ⟨tokens.length - 1, by omega, ended⟩
  obtain ⟨behind, ends⟩ := Nat.find_spec some
  refine ⟨Nat.find some, behind, ends, fun i hp hi token htoken eof => ?_⟩
  exact Nat.find_min some hi ⟨hp, token, htoken, eof⟩

/-- No end is taken, so what is left begins at the first end or before it. -/
theorem Parser.Accounting.exists_position {result : Reported (List Token) α} {events : List Event}
    (accounting : Accounting (tokens.drop p) result events) (first : FirstEnd tokens p e) :
    p + (taken events).length ≤ e ∧ result.state = tokens.drop (p + (taken events).length) := by
  obtain ⟨token, there, eof⟩ := first.ends
  refine ⟨Nat.le_of_not_lt fun beyond => ?_, ?_⟩
  · -- The first end would be among the tokens that are taken.
    have behind := first.behind
    have same : (taken events)[e - p]? = some token := by
      rw [← List.getElem?_append_left (by omega), ← accounting.split, List.getElem?_drop,
        Nat.add_sub_cancel' behind]
      exact there
    exact accounting.inside token (List.mem_of_getElem? same) eof
  · rw [← List.drop_drop, accounting.split, List.drop_left]

/-- What reads a statement or an expression has events. -/
theorem Call.ReadsTree.accountsAt {c : Call α} (reads : c.ReadsTree) (fuel : Nat)
    (tokens : List Token) :
    AccountsAt tokens (c.parser fuel) fun _ events => events ≠ [] := by
  cases c with
  | statement =>
    obtain ⟨events, accounting, part⟩ := accountsAt_statement fuel tokens
    exact ⟨events, accounting, part.ne_nil⟩
  | expression =>
    obtain ⟨events, accounting, part⟩ := accountsAt_expression fuel tokens
    exact ⟨events, accounting, part.ne_nil⟩
  | operation bound =>
    obtain ⟨events, accounting, part⟩ := accountsAt_operation fuel bound tokens
    exact ⟨events, accounting, part.ne_nil⟩
  | extend | operand | arguments | furtherArguments | statements => exact reads.elim

/-- A round of a block accounts for the tokens. -/
theorem accountsAt_round (fuel : Nat) (inside : (current tokens).kind ≠ .eof) :
    AccountsAt tokens (Routine.round.parser fuel) fun _ _ => True := by
  simp only [Routine.round, Routine.parser_bind, Routine.parser_look, Routine.parser_single]
  refine .state ((accountsAt_statement fuel tokens).bind fun first events accounting part => ?_)
  refine .state ?_
  split
  next still =>
    obtain ⟨same, -⟩ := accounting.exists_last_missed part.ne_nil still
    have next : (current ((Call.statement.parser fuel).run tokens).state).kind ≠ .eof := by
      rwa [Call.parser, same]
    rw [Routine.parser_bind, Routine.parser_advance]
    exact .advance .skipped (fun _ => rfl) next fun rest => .pure trivial
  next => exact .pure trivial

namespace Routine

variable {r : Routine α} {good : Nat → Nat → Prop}

/-- From one position in the tokens the routine ends at another one, with what it reports,
and so does its parser if the bound on nested calls is four for each token and four more. -/
def Reaches (r : Routine α) (tokens : List Token) (p p' : Nat) (diagnostics : List Diagnostic) :
    Prop :=
  ∃ a calls, r.Ends (tokens.drop p) ⟨a, tokens.drop p', diagnostics⟩ calls ∧
    ∀ fuel, 4 * (tokens.length - p) + 4 ≤ fuel →
      (r.parser fuel).run (tokens.drop p) = ⟨a, tokens.drop p', diagnostics⟩

/-- A routine that ends and accounts for the tokens reaches the position behind those that
it takes, which is no further than the first end. -/
theorem exists_reaches (first : FirstEnd tokens p e)
    (ends : ∀ fuel, 4 * (tokens.length - p) + 4 ≤ fuel → r.EndsAt fuel (tokens.drop p) good)
    {events : List Event}
    (accounting : Accounting (tokens.drop p)
      ((r.parser (4 * (tokens.length - p) + 4)).run (tokens.drop p)) events) :
    p + (taken events).length ≤ e ∧
      r.Reaches tokens p (p + (taken events).length) (reports events) := by
  obtain ⟨within, left⟩ := accounting.exists_position first
  obtain ⟨calls, ended, -⟩ := ends _ le_rfl
  refine ⟨within, ?_⟩
  rw [Reaches, ← left, ← accounting.reported]
  refine ⟨_, calls, ended, fun fuel hfuel => ?_⟩
  obtain ⟨calls', ended', -⟩ := ends fuel hfuel
  exact (ended'.unique ended).1

/-- Reading a statement or an expression reads a token or reports the next one. -/
theorem exists_reaches_of_readsTree (inside : p < tokens.length) (first : FirstEnd tokens p e)
    {c : Call α} (reads : c.ReadsTree) :
    ∃ p' diagnostics, (single c).Reaches tokens p p' diagnostics ∧ p ≤ p' ∧ p' ≤ e ∧
      (p' = p → ∃ expected,
        ⟨.unexpectedToken tokens[p].kind expected, tokens[p].span⟩ ∈ diagnostics) := by
  have rank : c.rank ≤ 4 := by
    cases c with
    | statement | expression | operation => simp only [Call.rank]; omega
    | extend | operand | arguments | furtherArguments | statements => exact reads.elim
  obtain ⟨events, accounting, nonempty⟩ :=
    reads.accountsAt (4 * (tokens.length - p) + 4) (tokens.drop p)
  obtain ⟨within, reaches⟩ := exists_reaches first
    (fun fuel hfuel => allPay fuel c (tokens.drop p) (by rw [List.length_drop]; omega))
    (by rwa [parser_single])
  refine ⟨_, _, reaches, Nat.le_add_right .., within, fun still => ?_⟩
  have nothing : taken events = [] := List.length_eq_zero_iff.1 (by omega)
  have unread := congrArg List.length accounting.split
  rw [nothing, List.nil_append] at unread
  obtain ⟨-, front, expected, rfl⟩ := accounting.exists_last_missed nonempty unread.symm
  have here : current (tokens.drop p) = tokens[p] := by
    rw [List.drop_eq_getElem_cons inside]
    rfl
  exact ⟨expected, by simp [here, report?]⟩

/-- A round of a block reads a token. -/
theorem exists_reaches_round (inside : p < tokens.length) (first : FirstEnd tokens p e)
    (present : tokens[p].kind ≠ .eof) :
    ∃ p' diagnostics, round.Reaches tokens p p' diagnostics ∧ p < p' ∧ p' ≤ e := by
  have next : (current (tokens.drop p)).kind ≠ .eof := by
    rwa [List.drop_eq_getElem_cons inside]
  have ends (fuel : Nat) (hfuel : 4 * (tokens.length - p) + 4 ≤ fuel) :=
    AllPay.round (allPay fuel) (by rwa [List.length_drop]) next
  obtain ⟨events, accounting, -⟩ := accountsAt_round (4 * (tokens.length - p) + 4) next
  obtain ⟨within, reaches⟩ := exists_reaches first ends accounting
  refine ⟨_, _, reaches, ?_, within⟩
  obtain ⟨calls, -, shorter, -⟩ := ends _ le_rfl
  have lengths := congrArg List.length accounting.split
  rw [List.length_append] at lengths
  omega

/-- Parsing a submission makes no more than sixteen calls for each token and five more. -/
theorem exists_ends_script (ended : ∃ last ∈ tokens.getLast?, last.kind = .eof) :
    ∃ result calls, script.Ends tokens result calls ∧
      parse tokens = (result.value, result.diagnostics) ∧ calls ≤ 16 * tokens.length + 5 := by
  have counted : script.EndsAt (4 * tokens.length + 4) tokens fun _ calls =>
      calls ≤ 16 * tokens.length + 5 := by
    refine AllPay.call (allPay _) .statement le_rfl fun statement rest calls paid => ?_
    exact .expect fun endOfFile left shorter => .pure (by grind)
  obtain ⟨calls, ends, most⟩ := counted
  rw [parser_script] at ends
  have whole : terminated tokens = tokens := by
    obtain ⟨last, hlast, eof⟩ := ended
    simp [terminated, Option.mem_def.1 hlast, eof]
  exact ⟨_, calls, ends, by rw [parse, whole], most⟩

end Routine

/-- Parsing always makes progress and stays in front of the ends of the source, one of which
stands behind all other tokens. From every position in the tokens, a call that reads a
statement or an expression ends, at the first end from there on or before it, and if it ends
where it began it has reported the token there. A round of a block ends behind the place
where it began. All in all, parsing makes no more than sixteen calls for each token and five
more. -/
theorem parse_makes_progress (ended : ∃ last ∈ tokens.getLast?, last.kind = .eof) :
    (∀ p, (inside : p < tokens.length) → ∃ e, FirstEnd tokens p e ∧
      (∀ {α : Type} (c : Call α), c.ReadsTree → ∃ p' diagnostics,
        (Routine.single c).Reaches tokens p p' diagnostics ∧ p ≤ p' ∧ p' ≤ e ∧
        (p' = p → ∃ expected,
          ⟨.unexpectedToken tokens[p].kind expected, tokens[p].span⟩ ∈ diagnostics)) ∧
      (tokens[p].kind ≠ .eof → ∃ p' diagnostics,
        Routine.round.Reaches tokens p p' diagnostics ∧ p < p' ∧ p' ≤ e)) ∧
    ∃ result calls, Routine.script.Ends tokens result calls ∧
      parse tokens = (result.value, result.diagnostics) ∧ calls ≤ 16 * tokens.length + 5 := by
  refine ⟨fun p inside => ?_, Routine.exists_ends_script ended⟩
  obtain ⟨e, first⟩ := exists_firstEnd ended inside
  exact ⟨e, first, fun c reads => Routine.exists_reaches_of_readsTree inside first reads,
    Routine.exists_reaches_round inside first⟩

/-- A block with a token that begins no statement, cut off by an end of the source behind
which more tokens stand. -/
def cutOffSample : List Token :=
  (tokenize "\x7b )").tokens ++ (tokenize "x").tokens

/-- The second token is reported and skipped, and the missing brace is reported. A round that
begins at the second token goes on, no further than the first end. -/
theorem parse_makes_progress_cutOffSample :
    (∃ last ∈ cutOffSample.getLast?, last.kind = .eof) ∧ cutOffSample.length = 5 ∧
      (parse cutOffSample).2.length = 2 ∧
      (∃ e, FirstEnd cutOffSample 1 e ∧
        (∃ p' diagnostics, (Routine.single .statement).Reaches cutOffSample 1 p' diagnostics ∧
          1 ≤ p' ∧ p' ≤ e) ∧
        ∃ p' diagnostics, Routine.round.Reaches cutOffSample 1 p' diagnostics ∧
          1 < p' ∧ p' ≤ e) ∧
      ∃ result calls, Routine.script.Ends cutOffSample result calls ∧ calls ≤ 85 := by
  have ended : ∃ last ∈ cutOffSample.getLast?, last.kind = .eof := ⟨_, rfl, by decide⟩
  have length : cutOffSample.length = 5 := by decide
  obtain ⟨progress, result, calls, ends, -, most⟩ := parse_makes_progress ended
  obtain ⟨e, first, reads, rounds⟩ := progress 1 (by decide)
  obtain ⟨p', diagnostics, reaches, behind, within, -⟩ := reads .statement trivial
  refine ⟨ended, length, by decide, ⟨e, first, ⟨p', diagnostics, reaches, behind, within⟩,
    rounds (by decide)⟩, result, calls, ends, ?_⟩
  rwa [length] at most

end Scriptlet.Syntax
