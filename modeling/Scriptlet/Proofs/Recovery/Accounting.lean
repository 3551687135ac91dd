import Scriptlet.Proofs.Parsing.Inverse
import Scriptlet.Proofs.Recovery.Events

/-!
# Parsing accounts for every token

Every parser takes the tokens that its events take, in their order, and reports
what its events report. None of them takes an end of the source, so a missing
token is always made up in front of one that the parser was given.
-/

namespace Scriptlet.Syntax

open Reporting Event
open Scriptlet.Syntax.Parser

namespace Parser

/-- The way of a parser through some tokens: it takes what its events take, none
of it an end, reports what they report and gives a result that fits them. -/
structure Accounting {α : Type} (tokens : List Token) (result : Reported (List Token) α)
    (events : List Event) : Prop where
  split : tokens = taken events ++ result.state
  reported : result.diagnostics = reports events
  placed : Placed events result.state
  inside : ∀ token ∈ taken events, token.kind ≠ .eof

/-- If a parser has events but took no token, its last event missed the next
token. -/
theorem Accounting.exists_last_missed {α : Type} {tokens : List Token}
    {result : Reported (List Token) α} {events : List Event}
    (accounting : Accounting tokens result events) (nonempty : events ≠ [])
    (still : result.state.length = tokens.length) :
    result.state = tokens ∧
      ∃ front expected, events = front ++ [.missed (current tokens) expected] := by
  have lengths := congrArg List.length accounting.split
  rw [List.length_append] at lengths
  have none : taken events = [] := List.length_eq_zero_iff.1 (by omega)
  have same : result.state = tokens := by rw [accounting.split, none, List.nil_append]
  refine ⟨same, ?_⟩
  obtain ⟨front, last, rfl⟩ := (List.eq_nil_or_concat events).resolve_left nonempty
  rw [List.concat_eq_append] at *
  rw [taken_append, List.append_eq_nil_iff] at none
  cases last with
  | missed found expected =>
    have placed := ((placed_append.1 accounting.placed).2.1 found expected rfl)
    rw [taken_nil, List.nil_append, same] at placed
    exact ⟨front, expected, by rw [placed]⟩
  | kept | separated | skipped => cases none.2

/-- A parser accounts for some tokens by events that its result fits. -/
def AccountsAt {α : Type} (tokens : List Token) (m : Parser α) (good : α → List Event → Prop) :
    Prop :=
  ∃ events, Accounting tokens (m.run tokens) events ∧ good (m.run tokens).value events

variable {α β : Type} {tokens : List Token} {m : Parser α} {f : α → Parser β}
  {good : α → List Event → Prop} {good' : β → List Event → Prop}

/-- A bare result has no events. -/
theorem AccountsAt.pure {a : α} (ha : good a []) : AccountsAt tokens (Pure.pure a) good :=
  ⟨[], ⟨rfl, rfl, trivial, nofun⟩, ha⟩

/-- The events of one parser follow those of another one. -/
theorem AccountsAt.bind (h : AccountsAt tokens m good)
    (h' : ∀ a events, Accounting tokens (m.run tokens) events → good a events →
      AccountsAt (m.run tokens).state (f a) fun b events' => good' b (events ++ events')) :
    AccountsAt tokens (m >>= f) good' := by
  obtain ⟨events, first, hgood⟩ := h
  obtain ⟨events', second, hgood'⟩ := h' _ events first hgood
  rw [AccountsAt, run_bind]
  refine ⟨events ++ events', ⟨?_, ?_, ?_, ?_⟩, hgood'⟩
  · rw [taken_append, List.append_assoc, ← second.split, ← first.split]
  · rw [reports_append, ← second.reported, ← first.reported]
  · rw [placed_append, ← second.split]
    exact ⟨first.placed, second.placed⟩
  · rw [taken_append]
    exact List.forall_mem_append.2 ⟨first.inside, second.inside⟩

/-- The events of a parser are those of what is made of its result. -/
theorem AccountsAt.map {g : α → β} (h : AccountsAt tokens m good)
    (h' : ∀ a events, good a events → good' (g a) events) :
    AccountsAt tokens (m >>= fun a => Pure.pure (g a)) good' := by
  refine h.bind fun a events _ hgood => .pure ?_
  rw [List.append_nil]
  exact h' a events hgood

/-- Looking at the next token is no event. -/
theorem AccountsAt.peek {f : Kind → Parser β}
    (h : AccountsAt tokens (f (current tokens).kind) good') :
    AccountsAt tokens (Parser.peek >>= f) good' := h

/-- Looking at the token behind the next one is no event. -/
theorem AccountsAt.peekSecond {f : Kind → Parser β}
    (h : AccountsAt tokens (f (current tokens.tail).kind) good') :
    AccountsAt tokens (Parser.peekSecond >>= f) good' := h

/-- Looking at all tokens is no event. -/
theorem AccountsAt.state {f : List Token → Parser β} (h : AccountsAt tokens (f tokens) good') :
    AccountsAt tokens (Reporting.state >>= f) good' := h

/-- A token other than an end is taken, by an event of any sort that takes one. -/
theorem accountsAt_advance (event : Token → Event)
    (takes : ∀ token, (event token).taken? = some token) (inside : (current tokens).kind ≠ .eof) :
    AccountsAt tokens advance fun token events =>
      token = current tokens ∧ events = [event token] := by
  generalize hcurrent : current tokens = token at inside
  have taking : taken [event token] = [token] := List.filterMap_cons_some (takes token)
  have silent : ∀ found expected, event token ≠ .missed found expected := by
    intro found expected hevent
    have none : (event token).taken? = none := by rw [hevent]; rfl
    rw [takes token] at none
    cases none
  have unreported : reports [event token] = [] := by
    cases hevent : event token with
    | missed found expected => exact absurd hevent (silent found expected)
    | kept | separated | skipped => rfl
  refine ⟨[event token], ⟨?_, unreported.symm, ⟨?_, trivial⟩, ?_⟩, ?_⟩
  · have nonempty : tokens ≠ [] := by
      rintro rfl
      exact inside (hcurrent ▸ rfl)
    rw [taking, ← hcurrent]
    exact eq_cons_current nonempty
  · exact fun found expected hevent => absurd hevent (silent found expected)
  · rw [taking]
    exact List.forall_mem_singleton.2 inside
  · exact ⟨hcurrent, congrArg (fun token => [event token]) hcurrent.symm⟩

/-- Where a token is required, one is taken or missed, and becomes a leaf. -/
theorem accountsAt_expect {kind : Kind} (inside : kind ≠ .eof) :
    AccountsAt tokens (expect kind) fun token events =>
      ∃ event, events = [event] ∧ event.leaf? = some token := by
  by_cases hkind : (current tokens).kind = kind
  · obtain ⟨events, accounting, hevents⟩ :=
      accountsAt_advance .kept (fun _ => rfl) (hkind ▸ inside : (current tokens).kind ≠ .eof)
    have hrun : (expect kind).run tokens = advance.run tokens := by simp [expect, hkind]
    rw [AccountsAt, hrun]
    exact ⟨events, accounting, _, hevents.2, rfl⟩
  · have hrun : (expect kind).run tokens = ⟨.missing kind (current tokens).span.start, tokens,
        [⟨.unexpectedToken (current tokens).kind kind, (current tokens).span⟩]⟩ := by
      simp [expect, hkind]
    rw [AccountsAt, hrun]
    refine ⟨[.missed (current tokens) kind], ⟨rfl, rfl, ⟨?_, trivial⟩, List.forall_mem_nil _⟩, _,
      rfl, rfl⟩
    rintro found expected ⟨⟩
    rfl

/-- A parser goes on behind a token other than an end, which is taken by an event
of any sort that takes one. -/
theorem AccountsAt.advance {f : Token → Parser β} (event : Token → Event)
    (takes : ∀ token, (event token).taken? = some token) (inside : (current tokens).kind ≠ .eof)
    (h : ∀ rest, AccountsAt rest (f (current tokens)) fun b events =>
      good' b (event (current tokens) :: events)) :
    AccountsAt tokens (Parser.advance >>= f) good' := by
  refine (accountsAt_advance event takes inside).bind ?_
  rintro _ _ _ ⟨rfl, rfl⟩
  exact h _

/-- A parser goes on behind a token other than an end, which becomes a leaf. -/
theorem AccountsAt.keep {f : Token → Parser β} (inside : (current tokens).kind ≠ .eof)
    (h : ∀ token rest, AccountsAt rest (f token) fun b events => good' b (.kept token :: events)) :
    AccountsAt tokens (Parser.advance >>= f) good' :=
  .advance .kept (fun _ => rfl) inside (h _)

/-- A parser goes on behind a token that is required, which becomes a leaf. -/
theorem AccountsAt.expect {f : Token → Parser β} {kind : Kind} (inside : kind ≠ .eof)
    (h : ∀ token event rest, event.leaf? = some token → AccountsAt rest (f token) fun b events =>
      good' b (event :: events)) : AccountsAt tokens (Parser.expect kind >>= f) good' := by
  refine (accountsAt_expect inside).bind ?_
  rintro token _ _ ⟨event, rfl, leaf⟩
  exact h token event _ leaf

/-- A name is taken or missed where no expression can start. -/
theorem accountsAt_absentExpr : AccountsAt tokens absentExpr Expr.AccountsFor :=
  .expect (by decide) fun _ _ _ leaf => .pure (.name leaf)

mutual

/-- Expressions account for the tokens. -/
theorem accountsAt_expression (fuel : Nat) (tokens : List Token) :
    AccountsAt tokens (expression fuel) Expr.AccountsFor := by
  cases fuel with
  | zero => exact accountsAt_absentExpr
  | succ fuel =>
    refine .peek (.peekSecond ?_)
    split
    · refine .expect (by decide) fun identifier named _ leaf => ?_
      refine .expect (by decide) fun equals assigned _ leaf' => ?_
      exact (accountsAt_expression fuel _).map fun value events part => .assignment leaf leaf' part
    · exact accountsAt_operation fuel 0 tokens

/-- Operations account for the tokens. -/
theorem accountsAt_operation (fuel bound : Nat) (tokens : List Token) :
    AccountsAt tokens (operation fuel bound) Expr.AccountsFor := by
  cases fuel with
  | zero => exact accountsAt_absentExpr
  | succ fuel =>
    exact (accountsAt_operand fuel tokens).bind fun left events _ part =>
      accountsAt_extend fuel bound part _

/-- The operators behind an operand account for the tokens behind it. -/
theorem accountsAt_extend (fuel bound : Nat) {left : Expr} {before : List Event}
    (part : left.AccountsFor before) (tokens : List Token) :
    AccountsAt tokens (extend fuel bound left) fun e events =>
      e.AccountsFor (before ++ events) := by
  have ended : AccountsAt tokens (Pure.pure left) fun e events =>
      e.AccountsFor (before ++ events) :=
    .pure (by rwa [List.append_nil])
  cases fuel with
  | zero => exact ended
  | succ fuel =>
    refine .peek ?_
    split
    next precedence operates =>
      split
      · have inside : (current tokens).kind ≠ .eof := by
          intro ends
          rw [ends] at operates
          cases operates
        refine .keep inside fun operator rest => ?_
        refine (accountsAt_operation fuel precedence rest).bind fun right events _ part' => ?_
        have others := accountsAt_extend fuel bound
          (.binary part (rfl : (Event.kept operator).leaf? = some operator) part')
        simpa only [List.append_assoc, List.cons_append] using others _
      · exact ended
    next => exact ended

/-- Operands account for the tokens. -/
theorem accountsAt_operand (fuel : Nat) (tokens : List Token) :
    AccountsAt tokens (operand fuel) Expr.AccountsFor := by
  cases fuel with
  | zero => exact accountsAt_absentExpr
  | succ fuel =>
    refine .peek ?_
    have literal (inside : (current tokens).kind ≠ .eof) :
        AccountsAt tokens (do return Expr.literal (← advance)) Expr.AccountsFor :=
      .keep inside fun token _ => .pure (.literal rfl)
    have prefixed (inside : (current tokens).kind ≠ .eof) :
        AccountsAt tokens (do
          let operator ← advance
          let operand ← operation fuel Kind.unaryPrecedence
          return Expr.unary operator operand) Expr.AccountsFor :=
      .keep inside fun operator rest =>
        (accountsAt_operation fuel _ rest).map fun operand events part => .unary rfl part
    split
    next h => exact literal (by simp [h])
    next h => exact literal (by simp [h])
    next h => exact literal (by simp [h])
    next h => exact literal (by simp [h])
    next h =>
      refine .peekSecond ?_
      split
      · refine .expect (by decide) fun identifier named _ leaf => ?_
        refine .expect (by decide) fun opening opened rest leaf' => ?_
        refine (accountsAt_arguments fuel rest).bind fun arguments events _ parts => ?_
        exact .expect (by decide) fun closing closed _ leaf'' =>
          .pure (.call leaf leaf' parts leaf'')
      · exact .keep (by simp [h]) fun identifier _ => .pure (.name rfl)
    next h =>
      refine .keep (by simp [h]) fun opening rest => ?_
      refine (accountsAt_expression fuel rest).bind fun inner events _ part => ?_
      exact .expect (by decide) fun closing closed _ leaf => .pure (.grouped rfl part leaf)
    next h => exact prefixed (by simp [h])
    next h => exact prefixed (by simp [h])
    next h => exact prefixed (by simp [h])
    next h => exact prefixed (by simp [h])
    next => exact accountsAt_absentExpr

/-- Arguments account for the tokens. -/
theorem accountsAt_arguments (fuel : Nat) (tokens : List Token) :
    AccountsAt tokens (arguments fuel) Expr.AllAccountFor := by
  cases fuel with
  | zero => exact .pure .nil
  | succ fuel =>
    refine .peek ?_
    split
    · exact .pure .nil
    · exact .pure .nil
    · refine (accountsAt_expression fuel tokens).bind fun first events _ part => ?_
      exact (accountsAt_furtherArguments fuel _).map fun others events' parts => .cons part parts

/-- Further arguments account for the tokens. -/
theorem accountsAt_furtherArguments (fuel : Nat) (tokens : List Token) :
    AccountsAt tokens (furtherArguments fuel) Expr.FurtherAccountFor := by
  cases fuel with
  | zero => exact .pure .nil
  | succ fuel =>
    refine .peek ?_
    split
    next hcomma =>
      refine .advance .separated (fun _ => rfl) (by simp [hcomma]) fun rest => ?_
      refine (accountsAt_expression fuel rest).bind fun next events _ part => ?_
      exact (accountsAt_furtherArguments fuel _).map fun others events' parts =>
        .cons hcomma part parts
    next => exact .pure .nil

end

mutual

/-- Statements account for the tokens. -/
theorem accountsAt_statement (fuel : Nat) (tokens : List Token) :
    AccountsAt tokens (statement fuel) Stmt.AccountsFor := by
  cases fuel with
  | zero => exact accountsAt_absentExpr.map fun inner events part => .expression part
  | succ fuel =>
    refine .peek ?_
    have declaration (inside : (current tokens).kind ≠ .eof) :
        AccountsAt tokens (do
          let keyword ← advance
          let identifier ← expect .identifier
          let equals ← expect .assignment
          let initializer ← expression fuel
          return Stmt.declaration keyword identifier equals initializer) Stmt.AccountsFor := by
      refine .keep inside fun keyword _ => ?_
      refine .expect (by decide) fun identifier named _ leaf => ?_
      refine .expect (by decide) fun equals assigned rest leaf' => ?_
      exact (accountsAt_expression fuel rest).map fun initializer events part =>
        .declaration rfl leaf leaf' part
    split
    next h =>
      refine .expect (by decide) fun opening opened rest leaf => ?_
      refine (accountsAt_statements fuel rest).bind fun statements events _ parts => ?_
      exact .expect (by decide) fun closing closed _ leaf' => .pure (.block leaf parts leaf')
    next h => exact declaration (by simp [h])
    next h => exact declaration (by simp [h])
    next h =>
      refine .keep (by simp [h]) fun keyword rest => ?_
      refine (accountsAt_expression fuel rest).bind fun condition events _ test => ?_
      refine (accountsAt_statement fuel _).bind fun consequence events' _ part => ?_
      refine .peek ?_
      split
      next helse =>
        refine .keep (by simp [helse]) fun elseWord rest => ?_
        exact (accountsAt_statement fuel rest).map fun alternative events'' part' => by
          simpa only [List.append_assoc] using Stmt.AccountsFor.ifElse rfl test part rfl part'
      next =>
        refine .pure ?_
        rw [List.append_nil]
        exact .ifThen rfl test part
    next h =>
      refine .keep (by simp [h]) fun keyword rest => ?_
      refine (accountsAt_expression fuel rest).bind fun condition events _ test => ?_
      exact (accountsAt_statement fuel _).map fun body events' part => .whileLoop rfl test part
    next h =>
      refine .keep (by simp [h]) fun keyword _ => ?_
      refine .expect (by decide) fun identifier named _ leaf => ?_
      refine .expect (by decide) fun equals assigned rest leaf' => ?_
      refine (accountsAt_expression fuel rest).bind fun lower events _ first => ?_
      refine .expect (by decide) fun toWord reaches rest leaf'' => ?_
      refine (accountsAt_expression fuel rest).bind fun upper events' _ last => ?_
      exact (accountsAt_statement fuel _).map fun body events'' part =>
        .forLoop rfl leaf leaf' first leaf'' last part
    next => exact (accountsAt_expression fuel tokens).map fun inner events part => .expression part

/-- The statements of a block account for the tokens. -/
theorem accountsAt_statements (fuel : Nat) (tokens : List Token) :
    AccountsAt tokens (statements fuel) Stmt.AllAccountFor := by
  cases fuel with
  | zero => exact .pure .nil
  | succ fuel =>
    refine .peek ?_
    split
    · exact .pure .nil
    · exact .pure .nil
    next _ inside =>
      refine .state ?_
      refine (accountsAt_statement fuel tokens).bind fun first events accounting part => ?_
      refine .state ?_
      split
      next still =>
        -- Nothing was taken, so the last event missed the token that is skipped.
        obtain ⟨same, front, expected, rfl⟩ := accounting.exists_last_missed part.ne_nil still
        rw [same]
        refine .advance .skipped (fun _ => rfl) inside fun rest => ?_
        exact (accountsAt_statements fuel rest).map fun others events' parts =>
          .skipping part parts
      next =>
        exact (accountsAt_statements fuel _).map fun others events' parts => .cons part parts

end

end Parser

/-- The statement of a submission accounts for the tokens of a whole text up to
some token. That is either the end behind all others, which becomes the end of
the tree, or a token in front of which the end is missed. -/
theorem exists_accounting {tokens : List Token} (whole : Whole tokens) :
    ∃ events ended found ignored, (parse tokens).1.statement.AccountsFor events ∧
      ended.leaf? = some (parse tokens).1.endOfFile ∧
      tokens = taken events ++ found :: ignored ∧ Placed events (found :: ignored) ∧
      (parse tokens).2 = reports (events ++ [ended]) ∧
      (ended = .kept found ∧ ignored = [] ∨ ended = .missed found .eof) := by
  rw [parse, whole.terminated_eq]
  obtain ⟨events, accounting, part⟩ := accountsAt_statement (4 * tokens.length + 4) tokens
  simp only [script, run_bind, run_pure, List.append_nil]
  generalize (statement (4 * tokens.length + 4)).run tokens = result at *
  obtain ⟨value, rest, diagnostics⟩ := result
  obtain ⟨split, reported, placed, inside⟩ := accounting
  simp only at split reported placed part ⊢
  -- No end is taken, so the statement leaves at least the end behind it.
  have nonempty : rest ≠ [] := by
    rintro rfl
    cases whole with
    | @ended tokens endOfFile ends =>
      rw [List.append_nil] at split
      exact inside endOfFile (split ▸ List.mem_append_right tokens List.mem_cons_self) ends.kind_eq
  obtain ⟨found, ignored, rfl⟩ := List.exists_cons_of_ne_nil nonempty
  by_cases ends : found.kind = .eof
  · obtain ⟨rfl, -⟩ := whole.eq_of_append ends split
    refine ⟨events, .kept found, found, [], part, ?_, split, placed, ?_, .inl ⟨rfl, rfl⟩⟩
    · simp [run_expect ends, leaf?]
    · simp [run_expect ends, reported, report?]
  · refine ⟨events, .missed found .eof, found, ignored, part, ?_, split, placed, ?_, .inr rfl⟩
    · simp [expect, ends, leaf?, current]
    · simp [expect, ends, reported, report?, current]

/-- The leaves of the tree are tokens of the whole text and missing ones. -/
theorem mem_leaves_parse {tokens : List Token} (whole : Whole tokens) {t : Token}
    (ht : t ∈ (parse tokens).1.node.leaves) :
    t ∈ tokens ∨ ∃ kind position, t = .missing kind position := by
  obtain ⟨events, ended, found, ignored, part, leaf, split, -, -, ends⟩ := exists_accounting whole
  rw [part.script_leaves, List.mem_append, List.mem_singleton] at ht
  rcases ht with ht | rfl
  · obtain ⟨event, hevent, made⟩ := List.mem_filterMap.1 ht
    cases event with
    | kept token =>
      obtain rfl := Option.some.inj made
      have taken : token ∈ taken events := List.mem_filterMap.2 ⟨_, hevent, rfl⟩
      exact .inl (split ▸ List.mem_append_left _ taken)
    | missed found expected => exact .inr ⟨_, _, (Option.some.inj made).symm⟩
    | separated | skipped => cases made
  · rcases ends with ⟨rfl, -⟩ | rfl
    · refine .inl ?_
      rw [← Option.some.inj leaf, split]
      exact List.mem_append_right _ List.mem_cons_self
    · exact .inr ⟨_, _, (Option.some.inj leaf).symm⟩

/-- Recovery from errors accounts for every token of a whole text. The missing
tokens among the leaves of the tree stand for the reports, one for each and in
their order, and no report begins before the one in front of it if no token does.
The other leaves are tokens of the text, in their order. The tokens that are no
leaves are commas between arguments, tokens skipped in a block right behind a
report about them, and tokens behind the events of the submission, the first of
which is reported in place of the end. -/
theorem parse_accounts_for_tokens {tokens : List Token} (whole : Whole tokens) :
    List.Forall₂ StandsFor ((parse tokens).1.node.leaves.filter (·.isMissing)) (parse tokens).2 ∧
    ((tokens.Pairwise fun t u => t.span.start ≤ u.span.start) →
      (parse tokens).2.Pairwise fun d d' => d.span.start ≤ d'.span.start) ∧
    ((parse tokens).1.node.leaves.filter fun token => !token.isMissing).Sublist tokens ∧
    ∃ events ignored, (parse tokens).1.AccountsFor events ∧
      (parse tokens).1.node.leaves = leaves events ∧ (parse tokens).2 = reports events ∧
      tokens = taken events ++ ignored ∧
      (ignored = [] ∨ ∃ front found behind, ignored = found :: behind ∧
        events = front ++ [.missed found .eof]) := by
  obtain ⟨events, ended, found, ignored, part, leaf, split, placed, reported, ends⟩ :=
    exists_accounting whole
  have accounts : (parse tokens).1.AccountsFor (events ++ [ended]) := .script part leaf
  have nonempty : found :: ignored ≠ [] := List.cons_ne_nil _ _
  rw [accounts.leaves_eq, reported]
  rcases ends with ⟨rfl, rfl⟩ | rfl
  · have all : tokens = taken (events ++ [.kept found]) := by simpa [taken?] using split
    refine ⟨missing_leaves fun token htoken => whole.present token (all ▸ htoken), ?_,
      all ▸ present_leaves _, _, [], accounts, rfl, rfl, by rwa [List.append_nil], .inl rfl⟩
    intro sorted
    have reports_eq : reports (events ++ [.kept found]) = reports events := by simp [report?]
    rw [reports_eq]
    exact placed.reports_sorted nonempty (split ▸ sorted)
  · have all : tokens = taken (events ++ [.missed found .eof]) ++ found :: ignored := by
      simpa [taken?] using split
    have placed' : Placed (events ++ [.missed found .eof]) (found :: ignored) := by
      refine placed_append.2 ⟨placed, ?_, trivial⟩
      rintro found' expected ⟨⟩
      rfl
    refine ⟨missing_leaves fun token htoken => ?_, fun sorted => ?_, ?_, _, found :: ignored,
      accounts, rfl, rfl, all, .inr ⟨events, found, ignored, rfl, rfl⟩⟩
    · exact whole.present token (all ▸ List.mem_append_left _ htoken)
    · exact placed'.reports_sorted nonempty (all ▸ sorted)
    · have sub := (present_leaves (events ++ [.missed found .eof])).trans
        (List.sublist_append_left _ (found :: ignored))
      rwa [← all] at sub

/-- A call with a comma that is not closed, two tokens to be skipped, a declaration
without its name, and a name behind the block. -/
def recoverySample : List Token :=
  (tokenize "\x7b f(a, 1 2) var = ) \x7d x").tokens

/-- The tokens are those of a whole text, each behind the one in front of it. Six
missing tokens stand in the tree for what is reported, and no report begins
before the one in front of it. -/
theorem parse_accounts_for_recoverySample :
    Whole recoverySample ∧ (recoverySample.Pairwise fun t u => t.span.start ≤ u.span.start) ∧
      (parse recoverySample).2.length = 6 ∧
      List.Forall₂ StandsFor ((parse recoverySample).1.node.leaves.filter (·.isMissing))
        (parse recoverySample).2 ∧
      (parse recoverySample).2.Pairwise fun d d' => d.span.start ≤ d'.span.start := by
  have same : recoverySample = recoverySample.dropLast ++ [recoverySample.getLastD default] := rfl
  have whole : Whole recoverySample := by
    rw [same]
    exact .ended ⟨rfl, rfl⟩ (by decide) (by decide)
  have sorted : recoverySample.Pairwise fun t u => t.span.start ≤ u.span.start := by decide
  obtain ⟨stand, order, -⟩ := parse_accounts_for_tokens whole
  exact ⟨whole, sorted, by decide, stand, order sorted⟩

end Scriptlet.Syntax
