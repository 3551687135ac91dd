import Scriptlet.Syntax.Parser

/-!
# Canonical trees and their tokens

A tree is written down as the row of its tokens, with a comma between
neighbouring arguments of a call. A tree is canonical if every token in it is
what its place asks for and if it groups its parts as the row of its tokens is
meant to be read: operators take their operands by precedence, no statement
begins with a token that would continue the expression in front of it, and an
`else` belongs to the nearest `if` before it.
-/

namespace Scriptlet

/-- The kinds of tokens that are an expression by themselves, names apart. -/
def Kind.isLiteral : Kind → Bool
  | .number | .string | .trueWord | .falseWord => true
  | _ => false

/-- The token is in the source and of the given kind. -/
structure Token.Is (t : Token) (kind : Kind) : Prop where
  kind_eq : t.kind = kind
  present : t.isMissing = false

/-- An expression can begin with a token of the kind. -/
def Kind.startsExpr (k : Kind) : Bool :=
  k.isLiteral || k.isUnaryOperator || k == .identifier || k == .openParen

/-- A statement can begin with a token of the kind. -/
def Kind.startsStmt : Kind → Bool
  | .openCurly | .varWord | .letWord | .ifWord | .whileWord | .forWord => true
  | k => k.startsExpr

/-- A statement can begin as an expression does. -/
theorem Kind.startsStmt_of_startsExpr {k : Kind} (h : k.startsExpr = true) :
    k.startsStmt = true := by
  cases k <;> first | rfl | cases h

namespace Syntax

mutual

/-- The tokens of an expression, in the order of the source. -/
inductive Expr.WrittenAs : Expr → List Token → Prop where
  | literal (token : Token) : WrittenAs (.literal token) [token]
  | name (identifier : Token) : WrittenAs (.name identifier) [identifier]
  | assignment {identifier equals : Token} {value : Expr} {tokens : List Token}
      (part : WrittenAs value tokens) :
      WrittenAs (.assignment identifier equals value) (identifier :: equals :: tokens)
  | unary {operator : Token} {operand : Expr} {tokens : List Token}
      (part : WrittenAs operand tokens) : WrittenAs (.unary operator operand) (operator :: tokens)
  | binary {left right : Expr} {operator : Token} {tokens tokens' : List Token}
      (part : WrittenAs left tokens) (part' : WrittenAs right tokens') :
      WrittenAs (.binary left operator right) (tokens ++ operator :: tokens')
  | grouped {opening closing : Token} {inner : Expr} {tokens : List Token}
      (part : WrittenAs inner tokens) :
      WrittenAs (.grouped opening inner closing) (opening :: (tokens ++ [closing]))
  | call {identifier opening closing : Token} {arguments : List Expr} {tokens : List Token}
      (parts : Expr.AllWrittenAs arguments tokens) :
      WrittenAs (.call identifier opening arguments closing)
        (identifier :: opening :: (tokens ++ [closing]))

/-- The tokens of a row of arguments, with a comma between neighbours. -/
inductive Expr.AllWrittenAs : List Expr → List Token → Prop where
  | nil : AllWrittenAs [] []
  | cons {e : Expr} {es : List Expr} {tokens tokens' : List Token} (part : Expr.WrittenAs e tokens)
      (further : Expr.FurtherWrittenAs es tokens') : AllWrittenAs (e :: es) (tokens ++ tokens')

/-- The tokens of the arguments behind the first one, with a comma in front of
each. -/
inductive Expr.FurtherWrittenAs : List Expr → List Token → Prop where
  | nil : FurtherWrittenAs [] []
  | cons {comma : Token} {e : Expr} {es : List Expr} {tokens tokens' : List Token}
      (separates : comma.kind = .comma) (part : Expr.WrittenAs e tokens)
      (further : FurtherWrittenAs es tokens') :
      FurtherWrittenAs (e :: es) (comma :: (tokens ++ tokens'))

end

mutual

/-- The tokens of a statement, in the order of the source. -/
inductive Stmt.WrittenAs : Stmt → List Token → Prop where
  | block {opening closing : Token} {statements : List Stmt} {tokens : List Token}
      (parts : Stmt.AllWrittenAs statements tokens) :
      WrittenAs (.block opening statements closing) (opening :: (tokens ++ [closing]))
  | declaration {keyword identifier equals : Token} {initializer : Expr} {tokens : List Token}
      (part : initializer.WrittenAs tokens) :
      WrittenAs (.declaration keyword identifier equals initializer)
        (keyword :: identifier :: equals :: tokens)
  | ifThen {keyword : Token} {condition : Expr} {consequence : Stmt}
      {tokens tokens' : List Token} (test : condition.WrittenAs tokens)
      (part : WrittenAs consequence tokens') :
      WrittenAs (.ifThen keyword condition consequence) (keyword :: (tokens ++ tokens'))
  | ifElse {keyword elseWord : Token} {condition : Expr} {consequence alternative : Stmt}
      {tokens tokens' tokens'' : List Token} (test : condition.WrittenAs tokens)
      (part : WrittenAs consequence tokens') (part' : WrittenAs alternative tokens'') :
      WrittenAs (.ifElse keyword condition consequence elseWord alternative)
        (keyword :: (tokens ++ (tokens' ++ elseWord :: tokens'')))
  | whileLoop {keyword : Token} {condition : Expr} {body : Stmt} {tokens tokens' : List Token}
      (test : condition.WrittenAs tokens) (part : WrittenAs body tokens') :
      WrittenAs (.whileLoop keyword condition body) (keyword :: (tokens ++ tokens'))
  | forLoop {keyword identifier equals toWord : Token} {lower upper : Expr} {body : Stmt}
      {tokens tokens' tokens'' : List Token} (first : lower.WrittenAs tokens)
      (last : upper.WrittenAs tokens') (part : WrittenAs body tokens'') :
      WrittenAs (.forLoop keyword identifier equals lower toWord upper body)
        (keyword :: identifier :: equals :: (tokens ++ toWord :: (tokens' ++ tokens'')))
  | expression {inner : Expr} {tokens : List Token} (part : inner.WrittenAs tokens) :
      WrittenAs (.expression inner) tokens

/-- The tokens of a row of statements, which nothing separates. -/
inductive Stmt.AllWrittenAs : List Stmt → List Token → Prop where
  | nil : AllWrittenAs [] []
  | cons {s : Stmt} {ss : List Stmt} {tokens tokens' : List Token} (part : Stmt.WrittenAs s tokens)
      (parts : AllWrittenAs ss tokens') : AllWrittenAs (s :: ss) (tokens ++ tokens')

end

/-- The tokens of a submission: those of its statement and the end. -/
inductive Script.WrittenAs : Script → List Token → Prop where
  | script {statement : Stmt} {endOfFile : Token} {tokens : List Token}
      (part : statement.WrittenAs tokens) : WrittenAs ⟨statement, endOfFile⟩ (tokens ++ [endOfFile])

namespace Expr

/-- The precedence of the operator between the two operands of an expression. -/
def precedence? : Expr → Option Nat
  | binary _ operator _ => operator.kind.binaryPrecedence?
  | _ => none

/-- The expression gives a variable a value. -/
def isAssignment : Expr → Bool
  | assignment .. => true
  | _ => false

/-- The first token of an expression. -/
def first : Expr → Token
  | literal token => token
  | name identifier => identifier
  | assignment identifier _ _ => identifier
  | unary operator _ => operator
  | binary left _ _ => left.first
  | grouped opening _ _ => opening
  | call identifier _ _ _ => identifier

/-- The last token of an expression. -/
def last : Expr → Token
  | literal token => token
  | name identifier => identifier
  | assignment _ _ value => value.last
  | unary _ operand => operand.last
  | binary _ _ right => right.last
  | grouped _ _ closing => closing
  | call _ _ _ closing => closing

/-- A statement that begins with the given token may follow the expression: the
token neither goes on as an operator nor makes a call of a name. -/
structure Precedes (e : Expr) (next : Token) : Prop where
  not_plus : next.kind ≠ .plus
  not_dash : next.kind ≠ .dash
  not_call : e.last.kind = .identifier → next.kind ≠ .openParen

/-- Every token of an expression is what its place asks for, and operators take
their operands by precedence, from left to right. -/
inductive Canonical : Expr → Prop where
  | literal {token : Token} (value : token.kind.isLiteral) (present : token.isMissing = false) :
      Canonical (literal token)
  | name {identifier : Token} (named : identifier.Is .identifier) : Canonical (name identifier)
  | assignment {identifier equals : Token} {value : Expr} (named : identifier.Is .identifier)
      (assigned : equals.Is .assignment) (part : Canonical value) :
      Canonical (assignment identifier equals value)
  | unary {operator : Token} {operand : Expr} (operates : operator.kind.isUnaryOperator)
      (present : operator.isMissing = false) (part : Canonical operand)
      (single : operand.precedence? = none) (plain : operand.isAssignment = false) :
      Canonical (unary operator operand)
  | binary {left right : Expr} {operator : Token} {p : Nat}
      (operates : operator.kind.binaryPrecedence? = some p) (present : operator.isMissing = false)
      (part : Canonical left) (part' : Canonical right) (plain : left.isAssignment = false)
      (plain' : right.isAssignment = false) (loose : ∀ q ∈ left.precedence?, p ≤ q)
      (tight : ∀ q ∈ right.precedence?, p < q) : Canonical (binary left operator right)
  | grouped {opening closing : Token} {inner : Expr} (opened : opening.Is .openParen)
      (part : Canonical inner) (closed : closing.Is .closeParen) :
      Canonical (grouped opening inner closing)
  | call {identifier opening closing : Token} {arguments : List Expr}
      (named : identifier.Is .identifier) (opened : opening.Is .openParen)
      (parts : ∀ e ∈ arguments, Canonical e) (closed : closing.Is .closeParen) :
      Canonical (call identifier opening arguments closing)

/-- An expression begins with one of the kinds that expressions begin with. -/
theorem Canonical.startsExpr_first {e : Expr} (h : e.Canonical) :
    e.first.kind.startsExpr = true := by
  induction h with
  | literal value => simp [first, Kind.startsExpr, value]
  | name named => simp [first, Kind.startsExpr, named.kind_eq]
  | assignment named => simp [first, Kind.startsExpr, named.kind_eq]
  | unary operates => simp [first, Kind.startsExpr, operates]
  | binary _ _ _ _ _ _ _ _ ih => exact ih
  | grouped opened => simp [first, Kind.startsExpr, opened.kind_eq]
  | call named => simp [first, Kind.startsExpr, named.kind_eq]

/-- The row of the tokens of an expression begins with its first token. -/
theorem WrittenAs.head?_eq {e : Expr} {tokens : List Token} (h : e.WrittenAs tokens) :
    tokens.head? = some e.first := by
  cases h with
  | binary part _ =>
    have found := part.head?_eq
    rw [List.head?_append, found]
    rfl
  | literal | name | assignment | unary | grouped | call => rfl

/-- In front of the tokens of an expression, its first token is read next. -/
theorem WrittenAs.current_eq {e : Expr} {tokens rest : List Token} (h : e.WrittenAs tokens) :
    Parser.current (tokens ++ rest) = e.first := by
  rw [Parser.current, List.headD_eq_head?_getD, List.head?_append, h.head?_eq]
  rfl

/-- An expression has a token. -/
theorem WrittenAs.length_pos {e : Expr} {tokens : List Token} (h : e.WrittenAs tokens) :
    0 < tokens.length := by
  cases tokens with
  | nil => cases h.head?_eq
  | cons => exact Nat.succ_pos _

end Expr

namespace Stmt

/-- The first token of a statement. -/
def first : Stmt → Token
  | block opening _ _ => opening
  | declaration keyword .. => keyword
  | ifThen keyword .. => keyword
  | ifElse keyword .. => keyword
  | whileLoop keyword .. => keyword
  | forLoop keyword .. => keyword
  | expression inner => inner.first

/-- The expression that ends where the statement ends, if there is one. -/
def ending? : Stmt → Option Expr
  | block .. => none
  | declaration _ _ _ initializer => some initializer
  | ifThen _ _ consequence => consequence.ending?
  | ifElse _ _ _ _ alternative => alternative.ending?
  | whileLoop _ _ body => body.ending?
  | forLoop _ _ _ _ _ _ body => body.ending?
  | expression inner => some inner

/-- A condition without an alternative ends where the statement ends. -/
def endsOpen : Stmt → Bool
  | ifThen .. => true
  | ifElse _ _ _ _ alternative => alternative.endsOpen
  | whileLoop _ _ body => body.endsOpen
  | forLoop _ _ _ _ _ _ body => body.endsOpen
  | _ => false

/-- The first of some statements may follow the expression that ends where the
statement before them ends. -/
def Precedes (s : Stmt) (others : List Stmt) : Prop :=
  ∀ e ∈ s.ending?, ∀ next ∈ others.head?, e.Precedes next.first

mutual

/-- Every token of a statement is what its place asks for, every expression in
it is canonical and may stand in front of the statement that follows it, and
every alternative belongs to the nearest condition before it. -/
inductive Canonical : Stmt → Prop where
  | block {opening closing : Token} {statements : List Stmt} (opened : opening.Is .openCurly)
      (parts : AllCanonical statements) (closed : closing.Is .closeCurly) :
      Canonical (block opening statements closing)
  | declaration {keyword identifier equals : Token} {initializer : Expr}
      (declares : keyword.Is .varWord ∨ keyword.Is .letWord) (named : identifier.Is .identifier)
      (assigned : equals.Is .assignment) (part : initializer.Canonical) :
      Canonical (declaration keyword identifier equals initializer)
  | ifThen {keyword : Token} {condition : Expr} {consequence : Stmt} (tests : keyword.Is .ifWord)
      (test : condition.Canonical) (part : Canonical consequence)
      (apart : condition.Precedes consequence.first) :
      Canonical (ifThen keyword condition consequence)
  | ifElse {keyword elseWord : Token} {condition : Expr} {consequence alternative : Stmt}
      (tests : keyword.Is .ifWord) (test : condition.Canonical) (part : Canonical consequence)
      (apart : condition.Precedes consequence.first) (closed : consequence.endsOpen = false)
      (otherwise : elseWord.Is .elseWord) (part' : Canonical alternative) :
      Canonical (ifElse keyword condition consequence elseWord alternative)
  | whileLoop {keyword : Token} {condition : Expr} {body : Stmt} (repeats : keyword.Is .whileWord)
      (test : condition.Canonical) (part : Canonical body) (apart : condition.Precedes body.first) :
      Canonical (whileLoop keyword condition body)
  | forLoop {keyword identifier equals toWord : Token} {lower upper : Expr} {body : Stmt}
      (repeats : keyword.Is .forWord) (named : identifier.Is .identifier)
      (assigned : equals.Is .assignment) (start : lower.Canonical) (reaches : toWord.Is .toWord)
      (stop : upper.Canonical) (part : Canonical body) (apart : upper.Precedes body.first) :
      Canonical (forLoop keyword identifier equals lower toWord upper body)
  | expression {inner : Expr} (part : inner.Canonical) : Canonical (expression inner)

/-- The statements of a row are canonical, and each of them may follow the one
before it. -/
inductive AllCanonical : List Stmt → Prop where
  | nil : AllCanonical []
  | cons {s : Stmt} {ss : List Stmt} (part : Canonical s) (parts : AllCanonical ss)
      (apart : s.Precedes ss) : AllCanonical (s :: ss)

end

/-- A statement begins with one of the kinds that statements begin with. -/
theorem Canonical.startsStmt_first {s : Stmt} (h : s.Canonical) :
    s.first.kind.startsStmt = true := by
  cases h with
  | block opened => rw [first, opened.kind_eq]; rfl
  | declaration declares =>
    rcases declares with declares | declares <;> rw [first, declares.kind_eq] <;> rfl
  | ifThen tests => rw [first, tests.kind_eq]; rfl
  | ifElse tests => rw [first, tests.kind_eq]; rfl
  | whileLoop repeats => rw [first, repeats.kind_eq]; rfl
  | forLoop repeats => rw [first, repeats.kind_eq]; rfl
  | expression part =>
    exact Kind.startsStmt_of_startsExpr part.startsExpr_first

/-- The row of the tokens of a statement begins with its first token. -/
theorem WrittenAs.head?_eq {s : Stmt} {tokens : List Token} (h : s.WrittenAs tokens) :
    tokens.head? = some s.first := by
  cases h with
  | expression part => exact part.head?_eq
  | block | declaration | ifThen | ifElse | whileLoop | forLoop => rfl

/-- In front of the tokens of a statement, its first token is read next. -/
theorem WrittenAs.current_eq {s : Stmt} {tokens rest : List Token} (h : s.WrittenAs tokens) :
    Parser.current (tokens ++ rest) = s.first := by
  rw [Parser.current, List.headD_eq_head?_getD, List.head?_append, h.head?_eq]
  rfl

/-- A statement has a token. -/
theorem WrittenAs.length_pos {s : Stmt} {tokens : List Token} (h : s.WrittenAs tokens) :
    0 < tokens.length := by
  cases tokens with
  | nil => cases h.head?_eq
  | cons => exact Nat.succ_pos _

end Stmt

/-- A submission is canonical if its statement is and the end is in the source. -/
structure Script.Canonical (s : Script) : Prop where
  part : s.statement.Canonical
  ends : s.endOfFile.Is .eof

end Syntax

end Scriptlet
