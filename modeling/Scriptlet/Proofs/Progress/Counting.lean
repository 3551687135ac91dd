import Scriptlet.Proofs.Progress.Calls
import Scriptlet.Proofs.Recovery.Accounting

/-!
# Tokens pay for the calls

How often the parse functions call each other is counted against the tokens that are read.
Every token that is read pays for sixteen calls. A call that reads some has calls left over,
which pay for the next one that is made in its place; a call that reads none makes only a
few itself. What is left over in each case is chosen so that every parse function can pay
for the calls that it makes.
-/

namespace Scriptlet.Syntax

open Reporting
open Scriptlet.Syntax.Parser (current)

/-! ### Routines that end -/

namespace Routine

variable {α β : Type} {fuel : Nat} {r : Routine α} {f : α → Routine β} {tokens : List Token}
  {good good' : Nat → Nat → Prop}

/-- With a bound on nested calls, the routine ends as its parser does. What is good is the
number of tokens that are left behind it together with the number of calls. -/
def EndsAt (fuel : Nat) (r : Routine α) (tokens : List Token) (good : Nat → Nat → Prop) : Prop :=
  ∃ calls, r.Ends tokens ((r.parser fuel).run tokens) calls ∧
    good ((r.parser fuel).run tokens).state.length calls

/-- A bare result ends at once. -/
theorem EndsAt.pure {a : α} (h : good tokens.length 0) :
    (Pure.pure a : Routine α).EndsAt fuel tokens good :=
  ⟨0, .done a tokens, h⟩

/-- A sequence makes the calls of its parts. -/
theorem EndsAt.bind (h : r.EndsAt fuel tokens good)
    (h' : ∀ calls, good ((r.parser fuel).run tokens).state.length calls →
      (f ((r.parser fuel).run tokens).value).EndsAt fuel ((r.parser fuel).run tokens).state
        fun after calls' => good' after (calls + calls')) :
    (r >>= f).EndsAt fuel tokens good' := by
  obtain ⟨calls, ends, hgood⟩ := h
  obtain ⟨calls', ends', hgood'⟩ := h' calls hgood
  rw [EndsAt, parser_bind, run_bind]
  exact ⟨calls + calls', ends.bind ends', hgood'⟩

/-- Looking at the tokens calls nothing. -/
theorem EndsAt.look {f : List Token → Routine β} (h : (f tokens).EndsAt fuel tokens good) :
    (Routine.look >>= f).EndsAt fuel tokens good := by
  obtain ⟨calls, ends, hgood⟩ := h
  exact ⟨calls, .step ends, hgood⟩

/-- Looking at the next token calls nothing. -/
theorem EndsAt.peek {f : Kind → Routine β} (h : (f (current tokens).kind).EndsAt fuel tokens good) :
    (Routine.peek >>= f).EndsAt fuel tokens good := by
  obtain ⟨calls, ends, hgood⟩ := h
  exact ⟨calls, .step ends, hgood⟩

/-- Looking at the token behind the next one calls nothing. -/
theorem EndsAt.peekSecond {f : Kind → Routine β}
    (h : (f (current tokens.tail).kind).EndsAt fuel tokens good) :
    (Routine.peekSecond >>= f).EndsAt fuel tokens good := by
  obtain ⟨calls, ends, hgood⟩ := h
  exact ⟨calls, .step ends, hgood⟩

/-- Reading a token other than an end leaves one token less. -/
theorem EndsAt.advance {f : Token → Routine β} (inside : (current tokens).kind ≠ .eof)
    (h : ∀ token rest, rest.length + 1 = tokens.length → (f token).EndsAt fuel rest good) :
    (Routine.advance >>= f).EndsAt fuel tokens good := by
  cases tokens with
  | nil => exact absurd rfl inside
  | cons token rest =>
    obtain ⟨calls, ends, hgood⟩ := h token rest rfl
    exact ⟨calls, .step ends, hgood⟩

/-- Where a token is required, no more tokens are left behind it than in front of it. -/
theorem EndsAt.expect {f : Token → Routine β} {kind : Kind}
    (h : ∀ token rest, rest.length ≤ tokens.length → (f token).EndsAt fuel rest good) :
    (Routine.expect kind >>= f).EndsAt fuel tokens good := by
  have shorter : ((Parser.expect kind).run tokens).state.length ≤ tokens.length := by
    by_cases hkind : (current tokens).kind = kind
    · simp [Parser.expect, Parser.advance, hkind]
    · simp [Parser.expect, hkind]
  obtain ⟨calls, ends, hgood⟩ := h ((Parser.expect kind).run tokens).value _ shorter
  have goesOn : (step (.expect kind) f).Ends tokens _ calls := .step ends
  refine ⟨calls, ?_, ?_⟩
  · rw [parser_bind, parser_expect]
    exact goesOn
  · rw [parser_bind, parser_expect]
    exact hgood

/-- Reading a token of the kind that is required leaves one token less. -/
theorem EndsAt.expect_of_kind {f : Token → Routine β} {kind : Kind}
    (hkind : (current tokens).kind = kind) (inside : kind ≠ .eof)
    (h : ∀ token rest, rest.length + 1 = tokens.length → (f token).EndsAt fuel rest good) :
    (Routine.expect kind >>= f).EndsAt fuel tokens good := by
  cases tokens with
  | nil => exact absurd hkind.symm inside
  | cons token rest =>
    have reads : (Parser.expect kind).run (token :: rest) = ⟨token, rest, []⟩ :=
      Parser.run_expect hkind
    obtain ⟨calls, ends, hgood⟩ := h token rest rfl
    have goesOn : (Routine.expect kind >>= f).Ends (token :: rest) _ calls := .step (by
      rw [Step.parser, reads]
      exact ends)
    rw [EndsAt, parser_bind, parser_expect, run_bind, reads]
    simp only [Step.parser, reads] at goesOn
    exact ⟨calls, goesOn, hgood⟩

end Routine

/-! ### What a call may cost -/

namespace Call

variable {α : Type}

/-- How many nested calls a call needs at most without reading a token, itself included. -/
@[grind =] def rank : Call α → Nat
  | .operand | .extend .. | .furtherArguments => 1
  | .operation _ => 2
  | .expression => 3
  | .arguments | .statement => 4
  | .statements => 5

/-- How many calls a call makes at most without reading a token, itself included. -/
@[grind =] def base : Call α → Nat
  | .operand | .extend .. | .furtherArguments | .statements => 1
  | .operation _ => 3
  | .expression => 4
  | .statement => 5
  | .arguments => 6

/-- How many of the calls for which its tokens pay are left over by a call that reads some. -/
@[grind =] def gain : Call α → Nat
  | .statements | .arguments => 0
  | .statement => 2
  | .expression => 3
  | .operation _ => 4
  | .furtherArguments => 5
  | .operand | .extend .. => 6

/-- Every token that is read pays for sixteen calls. So many tokens are left before the call
and behind it, and so many calls are made, the call itself among them. -/
@[grind] structure Paid (c : Call α) (before after calls : Nat) : Prop where
  within : after ≤ before
  most : calls + 16 * after ≤ 16 * before + c.base
  moved : after < before → calls + c.gain + 16 * after ≤ 16 * before

end Call

namespace Routine

variable {α β : Type} {fuel : Nat} {f : α → Routine β} {tokens : List Token}
  {good : Nat → Nat → Prop}

/-- What a call does ends, and the tokens that are read pay for the call. -/
def Pays (fuel : Nat) (c : Call α) (tokens : List Token) : Prop :=
  (of c).EndsAt fuel tokens fun after calls => c.Paid tokens.length after (calls + 1)

/-- All calls are paid for if the bound on nested calls is enough for them. -/
def AllPay (fuel : Nat) : Prop :=
  ∀ {α : Type} (c : Call α) (tokens : List Token), 4 * tokens.length + c.rank ≤ fuel →
    (single c).EndsAt fuel tokens (c.Paid tokens.length)

/-- Behind a call for which the bound is enough. -/
theorem AllPay.call (pay : AllPay fuel) (c : Call α) (enough : 4 * tokens.length + c.rank ≤ fuel)
    (h : ∀ a rest calls, c.Paid tokens.length rest.length calls →
      (f a).EndsAt fuel rest fun after calls' => good after (calls + calls')) :
    (single c >>= f).EndsAt fuel tokens good :=
  (pay c tokens enough).bind fun calls => h _ _ calls

/-- In front of the value of an assignment a name is read. Otherwise an operation is called,
which has one more left over. -/
theorem AllPay.expression (pay : AllPay fuel)
    (enough : 4 * tokens.length + Call.expression.rank ≤ fuel + 1) :
    Pays fuel .expression tokens := by
  refine .peek (.peekSecond ?_)
  split
  next starts =>
    refine .expect_of_kind starts.1 (by decide) fun identifier rest shorter => ?_
    refine .expect fun equals rest' shorter' => ?_
    exact pay.call _ (by grind) fun value left calls paid => .pure (by grind)
  next =>
    obtain ⟨calls, ends, paid⟩ := pay (.operation 0) tokens (by grind)
    exact ⟨calls, ends, by grind⟩

/-- An operand and what extends it are called one behind the other. Only if neither reads a
token are both calls still to be paid for. -/
theorem AllPay.operation (pay : AllPay fuel) (bound : Nat)
    (enough : 4 * tokens.length + (Call.operation bound).rank ≤ fuel + 1) :
    Pays fuel (.operation bound) tokens := by
  refine pay.call _ (by grind) fun left rest calls paid => ?_
  obtain ⟨calls', ends, paid'⟩ := pay (.extend bound left) rest (by grind)
  exact ⟨calls', ends, by grind⟩

/-- The operator that is read pays for the calls behind it. -/
theorem AllPay.extend (pay : AllPay fuel) (bound : Nat) (left : Expr)
    (enough : 4 * tokens.length + (Call.extend bound left).rank ≤ fuel + 1) :
    Pays fuel (.extend bound left) tokens := by
  have ended : (pure left : Routine Expr).EndsAt fuel tokens fun after calls =>
      (Call.extend bound left).Paid tokens.length after (calls + 1) := .pure (by grind)
  refine .peek ?_
  split
  next precedence operates =>
    split
    · have inside : (current tokens).kind ≠ .eof := by
        intro ends
        rw [ends] at operates
        cases operates
      refine .advance inside fun operator rest shorter => ?_
      refine pay.call _ (by grind) fun right rest' calls paid => ?_
      obtain ⟨calls', ends, paid'⟩ :=
        pay (.extend bound (.binary left operator right)) rest' (by grind)
      exact ⟨calls', ends, by grind⟩
    · exact ended
  next => exact ended

/-- An operand calls nothing before it has read a token. -/
theorem AllPay.operand (pay : AllPay fuel)
    (enough : 4 * tokens.length + Call.operand.rank ≤ fuel + 1) :
    Pays fuel .operand tokens := by
  have literal (inside : (current tokens).kind ≠ .eof) :
      Routine.EndsAt fuel (do return Expr.literal (← advance)) tokens fun after calls =>
        Call.operand.Paid tokens.length after (calls + 1) :=
    .advance inside fun token rest shorter => .pure (by grind)
  have prefixed (inside : (current tokens).kind ≠ .eof) : Routine.EndsAt fuel (do
      let operator ← advance
      let operand ← single (.operation Kind.unaryPrecedence)
      return Expr.unary operator operand) tokens fun after calls =>
        Call.operand.Paid tokens.length after (calls + 1) := by
    refine .advance inside fun operator rest shorter => ?_
    exact pay.call _ (by grind) fun operand rest' calls paid => .pure (by grind)
  refine .peek ?_
  split
  next h => exact literal (by simp [h])
  next h => exact literal (by simp [h])
  next h => exact literal (by simp [h])
  next h => exact literal (by simp [h])
  next h =>
    refine .peekSecond ?_
    split
    · refine .expect_of_kind h (by decide) fun identifier rest shorter => ?_
      refine .expect fun opening rest' shorter' => ?_
      refine pay.call _ (by grind) fun arguments rest'' calls paid => ?_
      exact .expect fun closing left shorter'' => .pure (by grind)
    · exact .advance (by simp [h]) fun identifier rest shorter => .pure (by grind)
  next h =>
    refine .advance (by simp [h]) fun opening rest shorter => ?_
    refine pay.call _ (by grind) fun inner rest' calls paid => ?_
    exact .expect fun closing left shorter' => .pure (by grind)
  next h => exact prefixed (by simp [h])
  next h => exact prefixed (by simp [h])
  next h => exact prefixed (by simp [h])
  next h => exact prefixed (by simp [h])
  next => exact .expect fun identifier rest shorter => .pure (by grind)

/-- The first argument is called without a token that pays for it. -/
theorem AllPay.arguments (pay : AllPay fuel)
    (enough : 4 * tokens.length + Call.arguments.rank ≤ fuel + 1) :
    Pays fuel .arguments tokens := by
  refine .peek ?_
  split
  · exact .pure (by grind)
  · exact .pure (by grind)
  · refine pay.call _ (by grind) fun first rest calls paid => ?_
    exact pay.call _ (by grind) fun others left calls' paid' => .pure (by grind)

/-- The comma that is read pays for the calls behind it. -/
theorem AllPay.furtherArguments (pay : AllPay fuel)
    (enough : 4 * tokens.length + Call.furtherArguments.rank ≤ fuel + 1) :
    Pays fuel .furtherArguments tokens := by
  refine .peek ?_
  split
  next separates =>
    refine .advance (by simp [separates]) fun comma rest shorter => ?_
    refine pay.call _ (by grind) fun next rest' calls paid => ?_
    exact pay.call _ (by grind) fun others left calls' paid' => .pure (by grind)
  next => exact .pure (by grind)

/-- The first word of a statement pays for the calls behind it, three at most. Without one, a
statement has one call less left over than the expression that it is. -/
theorem AllPay.statement (pay : AllPay fuel)
    (enough : 4 * tokens.length + Call.statement.rank ≤ fuel + 1) :
    Pays fuel .statement tokens := by
  have declaration (inside : (current tokens).kind ≠ .eof) : Routine.EndsAt fuel (do
      let keyword ← advance
      let identifier ← expect .identifier
      let equals ← expect .assignment
      let initializer ← single .expression
      return Stmt.declaration keyword identifier equals initializer) tokens fun after calls =>
        Call.statement.Paid tokens.length after (calls + 1) := by
    refine .advance inside fun keyword rest shorter => ?_
    refine .expect fun identifier rest' shorter' => .expect fun equals rest'' shorter'' => ?_
    exact pay.call _ (by grind) fun initializer left calls paid => .pure (by grind)
  refine .peek ?_
  split
  next h =>
    refine .expect_of_kind h (by decide) fun opening rest shorter => ?_
    refine pay.call _ (by grind) fun statements rest' calls paid => ?_
    exact .expect fun closing left shorter' => .pure (by grind)
  next h => exact declaration (by simp [h])
  next h => exact declaration (by simp [h])
  next h =>
    refine .advance (by simp [h]) fun keyword rest shorter => ?_
    refine pay.call _ (by grind) fun condition rest' calls paid => ?_
    refine pay.call _ (by grind) fun consequence rest'' calls' paid' => .peek ?_
    split
    next otherwise =>
      refine .advance (by simp [otherwise]) fun elseWord rest''' shorter' => ?_
      exact pay.call _ (by grind) fun alternative left calls'' paid'' => .pure (by grind)
    next => exact .pure (by grind)
  next h =>
    refine .advance (by simp [h]) fun keyword rest shorter => ?_
    refine pay.call _ (by grind) fun condition rest' calls paid => ?_
    exact pay.call _ (by grind) fun body left calls' paid' => .pure (by grind)
  next h =>
    refine .advance (by simp [h]) fun keyword rest shorter => ?_
    refine .expect fun identifier rest₁ shorter₁ => .expect fun equals rest₂ shorter₂ => ?_
    refine pay.call _ (by grind) fun lower rest₃ calls paid => ?_
    refine .expect fun toWord rest₄ shorter₄ => ?_
    refine pay.call _ (by grind) fun upper rest₅ calls' paid' => ?_
    exact pay.call _ (by grind) fun body left calls'' paid'' => .pure (by grind)
  next => exact pay.call _ (by grind) fun inner left calls paid => .pure (by grind)

/-- Every round of a block reads a token, by its statement or by skipping one. -/
theorem AllPay.round (pay : AllPay fuel)
    (enough : 4 * tokens.length + Call.statement.rank ≤ fuel)
    (inside : (current tokens).kind ≠ .eof) :
    Routine.round.EndsAt fuel tokens fun after calls =>
      after < tokens.length ∧ calls + 2 + 16 * after ≤ 16 * tokens.length := by
  refine .look ((pay .statement tokens enough).bind fun calls paid => .look ?_)
  obtain ⟨events, accounting, part⟩ := Parser.accountsAt_statement fuel tokens
  rw [parser_single] at paid ⊢
  split
  next still =>
    -- No token was taken, so the next one still is that at which the round began.
    obtain ⟨same, -⟩ := accounting.exists_last_missed part.ne_nil still
    have next : (current ((Call.statement.parser fuel).run tokens).state).kind ≠ .eof := by
      rwa [Call.parser, same]
    exact .advance next fun token rest shorter => .pure (by grind)
  next => exact .pure (by grind)

/-- What a round has left over pays for the call behind it. -/
theorem AllPay.statements (pay : AllPay fuel)
    (enough : 4 * tokens.length + Call.statements.rank ≤ fuel + 1) :
    Pays fuel .statements tokens := by
  refine .peek ?_
  split
  · exact .pure (by grind)
  · exact .pure (by grind)
  next _ inside =>
    refine (pay.round (by grind) inside).bind fun calls spent => ?_
    exact pay.call _ (by grind) fun others left calls' paid => .pure (by grind)

/-- What a call does is paid for if the calls that it makes are. -/
theorem AllPay.pays (pay : AllPay fuel) (c : Call α)
    (enough : 4 * tokens.length + c.rank ≤ fuel + 1) : Pays fuel c tokens := by
  cases c with
  | expression => exact pay.expression enough
  | operation bound => exact pay.operation bound enough
  | extend bound left => exact pay.extend bound left enough
  | operand => exact pay.operand enough
  | arguments => exact pay.arguments enough
  | furtherArguments => exact pay.furtherArguments enough
  | statement => exact pay.statement enough
  | statements => exact pay.statements enough

/-- All calls are paid for, by induction on the bound on nested calls. -/
theorem allPay (fuel : Nat) : AllPay fuel := by
  induction fuel with
  | zero =>
    intro α c tokens enough
    cases c <;> simp only [Call.rank] at enough <;> omega
  | succ fuel ih =>
    intro α c tokens enough
    obtain ⟨calls, ends, paid⟩ := ih.pays c enough
    rw [parser_of] at ends paid
    have called : (single c).Ends tokens _ _ := .call ends (.done _ _)
    rw [List.append_nil] at called
    rw [EndsAt, parser_single]
    exact ⟨calls + 1, called, paid⟩

end Routine

end Scriptlet.Syntax
