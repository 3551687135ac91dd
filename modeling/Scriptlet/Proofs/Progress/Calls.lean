import Scriptlet.Syntax.Parser

/-!
# The calls that parsing makes

The parse functions call each other, bounded by a number that the parser is given. Here
each of them is written down as a routine: steps that call nothing, and calls. A routine
that ends does so after a number of calls, whatever bound there is, and the parse functions
are their routines with a bound.
-/

namespace Scriptlet.Syntax

open Reporting

/-- What a parse function does without calling another one. -/
inductive Step : Type → Type where
  /-- Looks at the tokens that are left. -/
  | look : Step (List Token)
  | advance : Step Token
  | expect (kind : Kind) : Step Token

/-- The parse functions, by what they give. What a function hands the tokens on to, told by
the kind of the next one, belongs to the same call. -/
inductive Call : Type → Type where
  | expression : Call Expr
  | operation (bound : Nat) : Call Expr
  | extend (bound : Nat) (left : Expr) : Call Expr
  | operand : Call Expr
  | arguments : Call (List Expr)
  | furtherArguments : Call (List Expr)
  | statement : Call Stmt
  | statements : Call (List Stmt)

/-- Steps and calls, one behind the other. What comes next may depend on what they gave. -/
inductive Routine (α : Type) : Type 1 where
  | done (a : α)
  | step {β : Type} (s : Step β) (next : β → Routine α)
  | call {β : Type} (c : Call β) (next : β → Routine α)

/-- The parser that takes a step. -/
def Step.parser {α : Type} : Step α → Parser α
  | .look => state
  | .advance => Parser.advance
  | .expect kind => Parser.expect kind

/-- The parser that makes a call, with a bound on the calls nested in it. -/
def Call.parser {α : Type} : Call α → Nat → Parser α
  | .expression, fuel => Parser.expression fuel
  | .operation bound, fuel => Parser.operation fuel bound
  | .extend bound left, fuel => Parser.extend fuel bound left
  | .operand, fuel => Parser.operand fuel
  | .arguments, fuel => Parser.arguments fuel
  | .furtherArguments, fuel => Parser.furtherArguments fuel
  | .statement, fuel => Parser.statement fuel
  | .statements, fuel => Parser.statements fuel

namespace Routine

variable {α β : Type}

/-- Goes on with another routine. -/
protected def bind : Routine α → (α → Routine β) → Routine β
  | .done a, f => f a
  | .step s next, f => .step s fun b => (next b).bind f
  | .call c next, f => .call c fun b => (next b).bind f

instance : Monad Routine where
  pure := .done
  bind := Routine.bind

/-- The parser that takes the steps and makes the calls of a routine. -/
def parser (fuel : Nat) : Routine α → Parser α
  | .done a => pure a
  | .step s next => s.parser >>= fun b => (next b).parser fuel
  | .call c next => c.parser fuel >>= fun b => (next b).parser fuel

/-- Looks at the tokens that are left. -/
def look : Routine (List Token) := .step .look .done

/-- Reads the next token. -/
def advance : Routine Token := .step .advance .done

/-- Reads a token of the given kind, or reports that it is missing. -/
def expect (kind : Kind) : Routine Token := .step (.expect kind) .done

/-- Makes a single call. -/
def single (c : Call α) : Routine α := .call c .done

/-- The kind of the token to be read next. -/
def peek : Routine Kind := do return (Parser.current (← look)).kind

/-- The kind of the token behind the next one. -/
def peekSecond : Routine Kind := do return (Parser.current (← look).tail).kind

/-- Misses the name of a variable. -/
def absentExpr : Routine Expr := do return .name (← expect .identifier)

/-- One round of a block: a statement, behind which a token is skipped if none was read. -/
def round : Routine Stmt := do
  let before := (← look).length
  let first ← single .statement
  if (← look).length = before then
    let _ ← advance
  return first

/-- A submission: one statement, then the end of the source. -/
def script : Routine Script := do
  let statement ← single .statement
  let endOfFile ← expect .eof
  return ⟨statement, endOfFile⟩

/-- What a parse function does. -/
def of : {α : Type} → Call α → Routine α
  | _, .expression => do
    if (← peek) = .identifier ∧ (← peekSecond) = .assignment then
      let identifier ← expect .identifier
      let equals ← expect .assignment
      let value ← single .expression
      return .assignment identifier equals value
    else
      single (.operation 0)
  | _, .operation bound => do
    let left ← single .operand
    single (.extend bound left)
  | _, .extend bound left => do
    match (← peek).binaryPrecedence? with
    | some precedence =>
      if bound < precedence then
        let operator ← advance
        let right ← single (.operation precedence)
        single (.extend bound (.binary left operator right))
      else
        return left
    | none => return left
  | _, .operand => do
    match ← peek with
    | .number | .string | .trueWord | .falseWord => return .literal (← advance)
    | .identifier =>
      if (← peekSecond) = .openParen then
        let identifier ← expect .identifier
        let opening ← expect .openParen
        let arguments ← single .arguments
        let closing ← expect .closeParen
        return .call identifier opening arguments closing
      else
        return .name (← advance)
    | .openParen =>
      let opening ← advance
      let inner ← single .expression
      let closing ← expect .closeParen
      return .grouped opening inner closing
    | .plus | .dash | .not | .tilde =>
      let operator ← advance
      let operand ← single (.operation Kind.unaryPrecedence)
      return .unary operator operand
    | _ => absentExpr
  | _, .arguments => do
    match ← peek with
    | .closeParen | .eof => return []
    | _ =>
      let first ← single .expression
      let rest ← single .furtherArguments
      return first :: rest
  | _, .furtherArguments => do
    if (← peek) = .comma then
      let _ ← advance
      let next ← single .expression
      let rest ← single .furtherArguments
      return next :: rest
    else
      return []
  | _, .statement => do
    match ← peek with
    | .openCurly =>
      let opening ← expect .openCurly
      let statements ← single .statements
      let closing ← expect .closeCurly
      return .block opening statements closing
    | .varWord | .letWord =>
      let keyword ← advance
      let identifier ← expect .identifier
      let equals ← expect .assignment
      let initializer ← single .expression
      return .declaration keyword identifier equals initializer
    | .ifWord =>
      let keyword ← advance
      let condition ← single .expression
      let consequence ← single .statement
      if (← peek) = .elseWord then
        let elseWord ← advance
        let alternative ← single .statement
        return .ifElse keyword condition consequence elseWord alternative
      else
        return .ifThen keyword condition consequence
    | .whileWord =>
      let keyword ← advance
      let condition ← single .expression
      let body ← single .statement
      return .whileLoop keyword condition body
    | .forWord =>
      let keyword ← advance
      let identifier ← expect .identifier
      let equals ← expect .assignment
      let lower ← single .expression
      let toWord ← expect .toWord
      let upper ← single .expression
      let body ← single .statement
      return .forLoop keyword identifier equals lower toWord upper body
    | _ => return .expression (← single .expression)
  | _, .statements => do
    match ← peek with
    | .closeCurly | .eof => return []
    | _ =>
      let first ← round
      let rest ← single .statements
      return first :: rest

/-- The parser of a sequence is the sequence of the parsers. -/
theorem parser_bind (fuel : Nat) (r : Routine α) (f : α → Routine β) :
    (r >>= f).parser fuel = r.parser fuel >>= fun a => (f a).parser fuel := by
  induction r with
  | done a => rfl
  | step s next ih =>
    show (s.parser >>= fun b => (next b >>= f).parser fuel) = _
    rw [parser, bind_assoc]
    exact congrArg _ (funext ih)
  | call c next ih =>
    show (c.parser fuel >>= fun b => (next b >>= f).parser fuel) = _
    rw [parser, bind_assoc]
    exact congrArg _ (funext ih)

@[simp] theorem parser_pure (fuel : Nat) (a : α) :
    (pure a : Routine α).parser fuel = pure a := rfl

@[simp] theorem parser_single (fuel : Nat) (c : Call α) : (single c).parser fuel = c.parser fuel :=
  bind_pure (c.parser fuel)

@[simp] theorem parser_look (fuel : Nat) : look.parser fuel = state := bind_pure state

@[simp] theorem parser_advance (fuel : Nat) : advance.parser fuel = Parser.advance :=
  bind_pure Parser.advance

@[simp] theorem parser_expect (fuel : Nat) (kind : Kind) :
    (expect kind).parser fuel = Parser.expect kind := bind_pure (Parser.expect kind)

@[simp] theorem parser_peek (fuel : Nat) : peek.parser fuel = Parser.peek := by
  rw [peek, parser_bind, parser_look]
  rfl

@[simp] theorem parser_peekSecond (fuel : Nat) : peekSecond.parser fuel = Parser.peekSecond := by
  rw [peekSecond, parser_bind, parser_look]
  rfl

@[simp] theorem parser_absentExpr (fuel : Nat) : absentExpr.parser fuel = Parser.absentExpr := by
  rw [absentExpr, parser_bind, parser_expect]
  rfl

@[simp] theorem parser_script (fuel : Nat) : script.parser fuel = Parser.script fuel := by
  simp [script, parser_bind, Call.parser, Parser.script]

/-- A parse function with a bound on nested calls does what its routine does, with the
calls nested in it bounded by one less. -/
theorem parser_of (c : Call α) (fuel : Nat) : (of c).parser fuel = c.parser (fuel + 1) := by
  -- Behind a look at the next token the two go on alike, whatever its kind.
  have peeks {γ : Type} {r : Kind → Routine γ} {m : Kind → Parser γ}
      (same : ∀ kind, (r kind).parser fuel = m kind) :
      (peek >>= r).parser fuel = Parser.peek >>= m := by
    rw [parser_bind, parser_peek]
    exact congrArg _ (funext same)
  cases c with
  | expression =>
    exact peeks fun kind => by simp [parser_bind, apply_ite (parser fuel), Call.parser]
  | operation bound => simp [of, parser_bind, Call.parser, Parser.operation]
  | extend bound left =>
    refine peeks fun kind => ?_
    cases kind.binaryPrecedence? with
    | none => rfl
    | some precedence => simp [parser_bind, apply_ite (parser fuel), Call.parser]
  | operand =>
    refine peeks fun kind => ?_
    split <;> simp [parser_bind, apply_ite (parser fuel), Call.parser]
  | arguments =>
    refine peeks fun kind => ?_
    split <;> simp [parser_bind, Call.parser]
  | furtherArguments =>
    exact peeks fun kind => by simp [parser_bind, apply_ite (parser fuel), Call.parser]
  | statement =>
    refine peeks fun kind => ?_
    split <;> simp [parser_bind, apply_ite (parser fuel), Call.parser]
  | statements =>
    refine peeks fun kind => ?_
    split
    · rfl
    · rfl
    · simp only [round, parser_bind, parser_look, parser_single, parser_pure, Call.parser,
        bind_assoc]
      refine congrArg _ (funext fun before => congrArg _ (funext fun first => ?_))
      refine congrArg _ (funext fun behind => ?_)
      split <;> simp [parser_bind]

/-- The routine ends at some tokens, with a result and after a number of calls, those in
the calls that it makes among them. -/
inductive Ends : {α : Type} → Routine α → List Token → Reported (List Token) α → Nat → Prop where
  | done {α : Type} (a : α) (tokens : List Token) : Ends (.done a) tokens ⟨a, tokens, []⟩ 0
  | step {α β : Type} {s : Step β} {next : β → Routine α} {tokens : List Token}
      {result : Reported (List Token) α} {calls : Nat}
      (rest : Ends (next (s.parser.run tokens).value) (s.parser.run tokens).state result calls) :
      Ends (.step s next) tokens ⟨result.value, result.state,
        (s.parser.run tokens).diagnostics ++ result.diagnostics⟩ calls
  | call {α β : Type} {c : Call β} {next : β → Routine α} {tokens : List Token}
      {inner : Reported (List Token) β} {result : Reported (List Token) α} {calls calls' : Nat}
      (inside : Ends (of c) tokens inner calls)
      (rest : Ends (next inner.value) inner.state result calls') :
      Ends (.call c next) tokens ⟨result.value, result.state,
        inner.diagnostics ++ result.diagnostics⟩ (calls + 1 + calls')

variable {r : Routine α} {tokens : List Token} {result result' : Reported (List Token) α}
  {calls calls' : Nat}

/-- A routine ends in one way at most. -/
theorem Ends.unique (h : r.Ends tokens result calls) (h' : r.Ends tokens result' calls') :
    result = result' ∧ calls = calls' := by
  induction h generalizing calls' with
  | done =>
    cases h'
    exact ⟨rfl, rfl⟩
  | step _ ih =>
    cases h' with
    | step rest =>
      obtain ⟨rfl, rfl⟩ := ih rest
      exact ⟨rfl, rfl⟩
  | call _ _ ih ih' =>
    cases h' with
    | call inside rest =>
      obtain ⟨rfl, rfl⟩ := ih inside
      obtain ⟨rfl, rfl⟩ := ih' rest
      exact ⟨rfl, rfl⟩

/-- A sequence ends if its parts do. -/
theorem Ends.bind {f : α → Routine β} {result' : Reported (List Token) β}
    (h : r.Ends tokens result calls)
    (h' : (f result.value).Ends result.state result' calls') :
    (r >>= f).Ends tokens
      ⟨result'.value, result'.state, result.diagnostics ++ result'.diagnostics⟩
      (calls + calls') := by
  induction h with
  | done =>
    rw [Nat.zero_add]
    exact h'
  | @step _ _ s next tokens result calls _ ih =>
    have goesOn : (Routine.step s fun b => next b >>= f).Ends tokens _ _ := .step (ih h')
    rw [List.append_assoc]
    exact goesOn
  | @call _ _ c next tokens inner result calls calls'' inside _ _ ih =>
    have goesOn : (Routine.call c fun b => next b >>= f).Ends tokens _ _ := .call inside (ih h')
    rw [List.append_assoc, Nat.add_assoc]
    exact goesOn

end Routine

end Scriptlet.Syntax
