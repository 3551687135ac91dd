import Scriptlet.Reporting
import Scriptlet.Syntax.Tree

/-!
# Parsing

Statements are told apart by their first token; expressions are read by
precedence, each operator taking as its right operand whatever binds tighter
than itself. Parsing never fails: where a required token is absent the problem
is reported, a missing token takes its place and nothing is consumed.

The recursion is bounded by an explicit number of nested calls. Every chain of
nested calls passes a token at least once in four, so four calls for each token
are enough.
-/

namespace Scriptlet.Syntax

/-- A parser works on the tokens that are left and reports what it misses. -/
abbrev Parser := Reporting (List Token)

namespace Parser

open Reporting

/-- What follows the last token: the end of the source once more. -/
def behindEnd : Token := .missing .eof 0

/-- The token to be read next. -/
def current (tokens : List Token) : Token := tokens.headD behindEnd

/-- The kind of the token to be read next. -/
def peek : Parser Kind := do return (current (← state)).kind

/-- The kind of the token behind the next one. -/
def peekSecond : Parser Kind := do return (current (← state).tail).kind

/-- Reads the next token. -/
def advance : Parser Token := do
  let tokens ← state
  setState tokens.tail
  return current tokens

/-- Reads a token of the given kind. If the next token is of another kind, that
is reported and a missing token is returned in place of reading it. -/
def expect (kind : Kind) : Parser Token := do
  let token := current (← state)
  if token.kind = kind then
    advance
  else
    report (.unexpectedToken token.kind kind) token.span
    return .missing kind token.span.start

/-- Where no expression can start, the name of a variable is missed. -/
def absentExpr : Parser Expr := return .name (← expect .identifier)

mutual

/-- A whole expression: an assignment if a name and an equals sign come first,
otherwise an operation of any precedence. -/
def expression : Nat → Parser Expr
  | 0 => absentExpr
  | fuel + 1 => do
    if (← peek) = .identifier ∧ (← peekSecond) = .assignment then
      let identifier ← expect .identifier
      let equals ← expect .assignment
      let value ← expression fuel
      return .assignment identifier equals value
    else
      operation fuel 0

/-- An operand and all operators behind it that bind tighter than a bound. -/
def operation : Nat → (bound : Nat) → Parser Expr
  | 0, _ => absentExpr
  | fuel + 1, bound => do
    let left ← operand fuel
    extend fuel bound left

/-- Extends a left operand by the operators behind it that bind tighter than a
bound. -/
def extend : Nat → (bound : Nat) → (left : Expr) → Parser Expr
  | 0, _, left => return left
  | fuel + 1, bound, left => do
    match (← peek).binaryPrecedence? with
    | some precedence =>
      if bound < precedence then
        let operator ← advance
        let right ← operation fuel precedence
        extend fuel bound (.binary left operator right)
      else
        return left
    | none => return left

/-- An operand: a literal, a name, a call, a group or an operator in front of
another operand. -/
def operand : Nat → Parser Expr
  | 0 => absentExpr
  | fuel + 1 => do
    match ← peek with
    | .number | .string | .trueWord | .falseWord => return .literal (← advance)
    | .identifier =>
      if (← peekSecond) = .openParen then
        let identifier ← expect .identifier
        let opening ← expect .openParen
        let arguments ← arguments fuel
        let closing ← expect .closeParen
        return .call identifier opening arguments closing
      else
        return .name (← advance)
    | .openParen =>
      let opening ← advance
      let inner ← expression fuel
      let closing ← expect .closeParen
      return .grouped opening inner closing
    | .plus | .dash | .not | .tilde =>
      let operator ← advance
      let operand ← operation fuel Kind.unaryPrecedence
      return .unary operator operand
    | _ => absentExpr

/-- The arguments of a call, up to its closing parenthesis. -/
def arguments : Nat → Parser (List Expr)
  | 0 => return []
  | fuel + 1 => do
    match ← peek with
    | .closeParen | .eof => return []
    | _ =>
      let first ← expression fuel
      let rest ← furtherArguments fuel
      return first :: rest

/-- The arguments of a call behind its first one, each after a comma. -/
def furtherArguments : Nat → Parser (List Expr)
  | 0 => return []
  | fuel + 1 => do
    if (← peek) = .comma then
      let _ ← advance
      let next ← expression fuel
      let rest ← furtherArguments fuel
      return next :: rest
    else
      return []

end

mutual

/-- A statement, told by its first token. -/
def statement : Nat → Parser Stmt
  | 0 => return .expression (← absentExpr)
  | fuel + 1 => do
    match ← peek with
    | .openCurly =>
      let opening ← expect .openCurly
      let statements ← statements fuel
      let closing ← expect .closeCurly
      return .block opening statements closing
    | .varWord | .letWord =>
      let keyword ← advance
      let identifier ← expect .identifier
      let equals ← expect .assignment
      let initializer ← expression fuel
      return .declaration keyword identifier equals initializer
    | .ifWord =>
      let keyword ← advance
      let condition ← expression fuel
      let consequence ← statement fuel
      if (← peek) = .elseWord then
        let elseWord ← advance
        let alternative ← statement fuel
        return .ifElse keyword condition consequence elseWord alternative
      else
        return .ifThen keyword condition consequence
    | .whileWord =>
      let keyword ← advance
      let condition ← expression fuel
      let body ← statement fuel
      return .whileLoop keyword condition body
    | .forWord =>
      let keyword ← advance
      let identifier ← expect .identifier
      let equals ← expect .assignment
      let lower ← expression fuel
      let toWord ← expect .toWord
      let upper ← expression fuel
      let body ← statement fuel
      return .forLoop keyword identifier equals lower toWord upper body
    | _ => return .expression (← expression fuel)

/-- The statements of a block, up to its closing brace. A token at which a
statement could not even start is skipped. -/
def statements : Nat → Parser (List Stmt)
  | 0 => return []
  | fuel + 1 => do
    match ← peek with
    | .closeCurly | .eof => return []
    | _ =>
      let before := (← state).length
      let first ← statement fuel
      if (← state).length = before then
        let _ ← advance
      let rest ← statements fuel
      return first :: rest

end

/-- A submission: one statement, then the end of the source. -/
def script (fuel : Nat) : Parser Script := do
  let statement ← statement fuel
  let endOfFile ← expect .eof
  return ⟨statement, endOfFile⟩

end Parser

/-- The tokens with an end of file behind them, unless they have one. -/
def terminated (tokens : List Token) : List Token :=
  match tokens.getLast? with
  | none => [.missing .eof 0]
  | some last =>
    if last.kind = .eof then tokens else tokens ++ [.missing .eof last.span.stop]

/-- Parses tokens into a submission, with the problems found on the way. -/
def parse (tokens : List Token) : Script × List Diagnostic :=
  let input := terminated tokens
  let result := (Parser.script (4 * input.length + 4)).run input
  (result.value, result.diagnostics)

end Scriptlet.Syntax
