import Scriptlet.Proofs.Parsing.ReadBack
import Scriptlet.Token.Scan

/-!
# Precedence holds in every tree

Whatever tokens are parsed, with or without reports, the tree groups its operators
by precedence. An operation ends only in front of an operator that binds no tighter
than its bound, so what is on the left of an operator binds no looser than it and
what is on its right binds tighter. Assignments are read as whole expressions only,
so none stands beside an operator.
-/

namespace Scriptlet.Syntax

open Reporting
open Scriptlet.Syntax.Parser

/-- What an expression is a part of. -/
inductive Place where
  | statement
  | initializer
  | condition
  | bound
  | value
  | argument
  | parentheses
  /-- The expression is beside an operator between two operands. -/
  | side
  /-- The expression is behind an operator in front of its operand. -/
  | operand
  deriving DecidableEq

/-- An assignment may stand at the place. -/
def Place.takesAssignment : Place → Bool
  | .side | .operand => false
  | _ => true

mutual

/-- The expressions inside of an expression, each with its place. -/
def Expr.occurrences : Expr → List (Place × Expr)
  | .literal _ | .name _ => []
  | .assignment _ _ value => (.value, value) :: value.occurrences
  | .unary _ operand => (.operand, operand) :: operand.occurrences
  | .binary left _ right =>
    (.side, left) :: left.occurrences ++ (.side, right) :: right.occurrences
  | .grouped _ inner _ => (.parentheses, inner) :: inner.occurrences
  | .call _ _ arguments _ => Expr.occurrencesAll arguments

/-- The arguments of a call and the expressions inside of them. -/
def Expr.occurrencesAll : List Expr → List (Place × Expr)
  | [] => []
  | e :: es => (.argument, e) :: e.occurrences ++ Expr.occurrencesAll es

end

mutual

/-- The expressions of a statement, each with its place. -/
def Stmt.occurrences : Stmt → List (Place × Expr)
  | .block _ statements _ => Stmt.occurrencesAll statements
  | .declaration _ _ _ initializer => (.initializer, initializer) :: initializer.occurrences
  | .ifThen _ condition consequence =>
    (.condition, condition) :: condition.occurrences ++ consequence.occurrences
  | .ifElse _ condition consequence _ alternative =>
    (.condition, condition) :: condition.occurrences ++
      (consequence.occurrences ++ alternative.occurrences)
  | .whileLoop _ condition body =>
    (.condition, condition) :: condition.occurrences ++ body.occurrences
  | .forLoop _ _ _ lower _ upper body =>
    (.bound, lower) :: lower.occurrences ++
      ((.bound, upper) :: upper.occurrences ++ body.occurrences)
  | .expression inner => (.statement, inner) :: inner.occurrences

/-- The expressions of a row of statements. -/
def Stmt.occurrencesAll : List Stmt → List (Place × Expr)
  | [] => []
  | s :: ss => s.occurrences ++ Stmt.occurrencesAll ss

end

namespace Expr

/-- The expression has an operator between two operands. -/
def isBinary : Expr → Bool
  | binary .. => true
  | _ => false

/-- An operator between two operands has one on its left that binds no looser and
one on its right that binds tighter; an operator in front of its operand has none
that is such an operation or an assignment. -/
def Ranked : Expr → Prop
  | binary left operator right => ∃ p, operator.kind.binaryPrecedence? = some p ∧
      (∀ q ∈ left.precedence?, p ≤ q) ∧ ∀ q ∈ right.precedence?, p < q
  | unary _ operand => operand.isBinary = false ∧ operand.isAssignment = false
  | _ => True

/-- An expression stands where it may and groups its operators by precedence. -/
structure Fits (o : Place × Expr) : Prop where
  ranked : o.2.Ranked
  placed : o.2.isAssignment = true → o.1.takesAssignment = true

/-- Operators are grouped by precedence in the expression and in all inside of it. -/
structure Proper (e : Expr) : Prop where
  ranked : e.Ranked
  inside : ∀ o ∈ e.occurrences, Fits o

variable {e : Expr} {es : List Expr} {place : Place} {bound : Nat} {rest : List Token}

/-- A proper expression may stand where assignments may, with all inside of it. -/
theorem Proper.fits (h : e.Proper) (takes : place.takesAssignment = true) :
    ∀ o ∈ (place, e) :: e.occurrences, Fits o :=
  List.forall_mem_cons.2 ⟨⟨h.ranked, fun _ => takes⟩, h.inside⟩

/-- A proper expression other than an assignment may stand everywhere. -/
theorem Proper.fits_plain (h : e.Proper) (plain : e.isAssignment = false) :
    ∀ o ∈ (place, e) :: e.occurrences, Fits o := by
  refine List.forall_mem_cons.2 ⟨⟨h.ranked, fun assigns => ?_⟩, h.inside⟩
  rw [plain] at assigns
  cases assigns

/-- Proper arguments may stand in a call, with all inside of them. -/
theorem fits_occurrencesAll (h : ∀ e ∈ es, e.Proper) : ∀ o ∈ occurrencesAll es, Fits o := by
  induction es with
  | nil => exact List.forall_mem_nil _
  | cons e es ih =>
    obtain ⟨here, others⟩ := List.forall_mem_cons.1 h
    exact List.forall_mem_append.2 ⟨here.fits rfl, ih others⟩

/-- An operand: neither an assignment nor an operation between two operands. -/
structure ProperOperand (e : Expr) : Prop extends e.Proper where
  plain : e.isAssignment = false
  single : e.isBinary = false

/-- An operand with the operators behind it that bind tighter than a bound, as far
as they were taken in. None of them binds looser than the next one. -/
structure ProperLeft (bound : Nat) (e : Expr) (rest : List Token) : Prop extends e.Proper where
  plain : e.isAssignment = false
  tight : ∀ q ∈ e.precedence?, bound < q
  loose : ∀ p ∈ e.precedence?, ∀ q ∈ (current rest).kind.binaryPrecedence?, q ≤ p

/-- An operand with all operators behind it that bind tighter than a bound. -/
structure ProperOperation (bound : Nat) (e : Expr) (rest : List Token) : Prop
    extends e.Proper where
  plain : e.isAssignment = false
  tight : ∀ q ∈ e.precedence?, bound < q
  stops : ∀ q ∈ (current rest).kind.binaryPrecedence?, q ≤ bound

/-- Only an operation between two operands has a precedence. -/
theorem precedence?_eq_none (single : e.isBinary = false) : e.precedence? = none := by
  cases e with
  | binary => cases single
  | _ => rfl

/-- An operand is the beginning of an operation. -/
theorem ProperOperand.left (h : e.ProperOperand) : e.ProperLeft bound rest := by
  refine ⟨h.toProper, h.plain, ?_, ?_⟩
  all_goals
    rw [precedence?_eq_none h.single]
    simp

/-- An operation is complete where no operator behind it binds tighter. -/
theorem ProperLeft.operation (h : e.ProperLeft bound rest)
    (stops : ∀ q ∈ (current rest).kind.binaryPrecedence?, q ≤ bound) :
    e.ProperOperation bound rest := ⟨h.toProper, h.plain, h.tight, stops⟩

/-- An operation takes in an operator that binds tighter with the operation behind
it. -/
theorem ProperLeft.binary {left right : Expr} {operator : Token} {p : Nat} {behind : List Token}
    (h : left.ProperLeft bound (operator :: behind))
    (operates : operator.kind.binaryPrecedence? = some p) (above : bound < p)
    (part : right.ProperOperation p rest) :
    (binary left operator right).ProperLeft bound rest := by
  have loose : ∀ q ∈ left.precedence?, p ≤ q := fun q hq => h.loose q hq p operates
  refine ⟨⟨⟨p, operates, loose, part.tight⟩, ?_⟩, rfl, ?_, ?_⟩
  · exact List.forall_mem_append.2 ⟨h.fits_plain h.plain, part.fits_plain part.plain⟩
  · intro q hq
    obtain rfl : p = q := Option.some.inj (operates.symm.trans hq)
    exact above
  · intro q hq
    obtain rfl : p = q := Option.some.inj (operates.symm.trans hq)
    exact part.stops

/-- What an operator in front takes is an operand. -/
theorem ProperOperation.single (h : e.ProperOperation Kind.unaryPrecedence rest) :
    e.isBinary = false := by
  cases e with
  | binary left operator right =>
    obtain ⟨p, operates, -⟩ := h.ranked
    have tight := h.tight p operates
    have loose := (Kind.binaryPrecedence_lt operates).2
    omega
  | _ => rfl

end Expr

namespace Stmt

/-- Operators are grouped by precedence in all expressions of the statement. -/
def Proper (s : Stmt) : Prop := ∀ o ∈ s.occurrences, Expr.Fits o

end Stmt

namespace Parser

/-- A parser leaves no more tokens than it was given, and gives a result that fits
what is left. -/
def YieldsAt {α : Type} (tokens : List Token) (m : Parser α) (good : α → List Token → Prop) :
    Prop :=
  (m.run tokens).state.length ≤ tokens.length ∧ good (m.run tokens).value (m.run tokens).state

variable {α β : Type} {tokens : List Token} {m : Parser α} {f : α → Parser β}
  {good : α → List Token → Prop} {good' : β → List Token → Prop}

/-- A bare result leaves all tokens. -/
theorem YieldsAt.pure {a : α} (ha : good a tokens) : YieldsAt tokens (Pure.pure a) good :=
  ⟨Nat.le_refl _, ha⟩

/-- One parser goes on with what another one leaves. -/
theorem YieldsAt.bind (h : YieldsAt tokens m good)
    (h' : ∀ a rest, rest.length ≤ tokens.length → good a rest → YieldsAt rest (f a) good') :
    YieldsAt tokens (m >>= f) good' := by
  obtain ⟨shorter, first⟩ := h
  obtain ⟨shorter', second⟩ := h' _ _ shorter first
  exact ⟨Nat.le_trans shorter' shorter, second⟩

/-- What is made of the result of a parser fits what the parser leaves. -/
theorem YieldsAt.map {g : α → β} (h : YieldsAt tokens m good)
    (h' : ∀ a rest, good a rest → good' (g a) rest) :
    YieldsAt tokens (m >>= fun a => Pure.pure (g a)) good' :=
  h.bind fun a rest _ ha => .pure (h' a rest ha)

/-- Looking at the next token leaves it. -/
theorem YieldsAt.peek {f : Kind → Parser β} (h : YieldsAt tokens (f (current tokens).kind) good') :
    YieldsAt tokens (Parser.peek >>= f) good' := h

/-- Looking at the token behind the next one leaves it. -/
theorem YieldsAt.peekSecond {f : Kind → Parser β}
    (h : YieldsAt tokens (f (current tokens.tail).kind) good') :
    YieldsAt tokens (Parser.peekSecond >>= f) good' := h

/-- Looking at all tokens leaves them. -/
theorem YieldsAt.state {f : List Token → Parser β} (h : YieldsAt tokens (f tokens) good') :
    YieldsAt tokens (Reporting.state >>= f) good' := h

/-- A token is taken if there is one, so fewer are left. -/
theorem YieldsAt.take {f : Token → Parser β} (nonempty : tokens ≠ [])
    (h : ∀ rest, tokens = current tokens :: rest → YieldsAt rest (f (current tokens)) good') :
    YieldsAt tokens (Parser.advance >>= f) good' := by
  obtain ⟨token, rest, rfl⟩ := List.exists_cons_of_ne_nil nonempty
  obtain ⟨shorter, hgood⟩ := h rest rfl
  exact ⟨Nat.le_trans shorter (Nat.le_succ _), hgood⟩

/-- A token other than an end is taken. -/
theorem YieldsAt.advance {f : Token → Parser β} (inside : (current tokens).kind ≠ .eof)
    (h : ∀ rest, tokens = current tokens :: rest → YieldsAt rest (f (current tokens)) good') :
    YieldsAt tokens (Parser.advance >>= f) good' := by
  refine .take ?_ h
  rintro rfl
  exact inside rfl

/-- A token that stands where it is required is taken, so fewer are left. -/
theorem YieldsAt.expect_current {f : Token → Parser β} {kind : Kind}
    (h : (current tokens).kind = kind) (inside : kind ≠ .eof)
    (h' : ∀ rest, tokens = current tokens :: rest → YieldsAt rest (f (current tokens)) good') :
    YieldsAt tokens (Parser.expect kind >>= f) good' := by
  have taken : (Parser.expect kind).run tokens = Parser.advance.run tokens := by
    simp [Parser.expect, h]
  have advanced := YieldsAt.advance (h ▸ inside) h'
  rw [YieldsAt, run_bind] at advanced ⊢
  rwa [taken]

/-- A token that is required is taken or missed. -/
theorem YieldsAt.expect {f : Token → Parser β} {kind : Kind}
    (h : ∀ token rest, rest.length ≤ tokens.length → YieldsAt rest (f token) good') :
    YieldsAt tokens (Parser.expect kind >>= f) good' := by
  have required : YieldsAt tokens (Parser.expect kind) fun _ _ => True := by
    by_cases found : (current tokens).kind = kind
    · simp [YieldsAt, Parser.expect, found, Parser.advance]
    · simp [YieldsAt, Parser.expect, found]
  exact required.bind fun token rest shorter _ => h token rest shorter

/-- The name that is missed where no expression can start is an operand. -/
theorem yieldsAt_absentExpr : YieldsAt tokens absentExpr fun e _ => e.ProperOperand :=
  .expect fun _ _ _ => .pure ⟨⟨trivial, List.forall_mem_nil _⟩, rfl, rfl⟩

mutual

/-- Expressions are proper. -/
theorem yieldsAt_expression (fuel : Nat) {tokens : List Token}
    (enough : 4 * tokens.length + 3 ≤ fuel) :
    YieldsAt tokens (expression fuel) fun e _ => e.Proper := by
  cases fuel with
  | zero => omega
  | succ fuel =>
    refine .peek (.peekSecond ?_)
    split
    next h =>
      refine .expect_current h.1 (by decide) fun rest htokens => ?_
      refine .expect fun equals rest' shorter => ?_
      rw [htokens, List.length_cons] at enough
      refine (yieldsAt_expression fuel (by omega)).map fun value _ part => ?_
      exact ⟨trivial, part.fits rfl⟩
    next =>
      have operation : YieldsAt tokens (operation fuel 0) (Expr.ProperOperation 0) :=
        yieldsAt_operation fuel 0 (by omega)
      exact operation.imp_right fun h => h.toProper

/-- Operations are proper, and end only in front of operators that bind no tighter
than their bounds. -/
theorem yieldsAt_operation (fuel bound : Nat) {tokens : List Token}
    (enough : 4 * tokens.length + 2 ≤ fuel) :
    YieldsAt tokens (operation fuel bound) (Expr.ProperOperation bound) := by
  cases fuel with
  | zero => omega
  | succ fuel =>
    refine (yieldsAt_operand fuel (by omega)).bind fun left rest shorter part => ?_
    exact yieldsAt_extend fuel bound part.left (by omega)

/-- The operators that bind tighter than the bound are taken into the operation. -/
theorem yieldsAt_extend (fuel bound : Nat) {left : Expr} {tokens : List Token}
    (h : left.ProperLeft bound tokens) (enough : 4 * tokens.length + 1 ≤ fuel) :
    YieldsAt tokens (extend fuel bound left) (Expr.ProperOperation bound) := by
  cases fuel with
  | zero => omega
  | succ fuel =>
    refine .peek ?_
    split
    next p operates =>
      split
      next above =>
        have inside : (current tokens).kind ≠ .eof := by
          intro ends
          rw [ends] at operates
          cases operates
        refine .advance inside fun rest htokens => ?_
        rw [htokens] at h
        rw [htokens, List.length_cons] at enough
        refine (yieldsAt_operation fuel p (by omega)).bind fun right rest' shorter part => ?_
        exact yieldsAt_extend fuel bound (h.binary operates above part) (by omega)
      next above =>
        refine .pure (h.operation fun q hq => ?_)
        obtain rfl : p = q := Option.some.inj (operates.symm.trans hq)
        exact Nat.not_lt.1 above
    next operates =>
      refine .pure (h.operation ?_)
      rw [operates]
      simp

/-- Operands are proper. -/
theorem yieldsAt_operand (fuel : Nat) {tokens : List Token}
    (enough : 4 * tokens.length + 1 ≤ fuel) :
    YieldsAt tokens (operand fuel) fun e _ => e.ProperOperand := by
  cases fuel with
  | zero => omega
  | succ fuel =>
    refine .peek ?_
    have literal (inside : (current tokens).kind ≠ .eof) :
        YieldsAt tokens (do return Expr.literal (← advance)) fun e _ => e.ProperOperand :=
      .advance inside fun _ _ => .pure ⟨⟨trivial, List.forall_mem_nil _⟩, rfl, rfl⟩
    have prefixed (inside : (current tokens).kind ≠ .eof) :
        YieldsAt tokens (do
          let operator ← advance
          let operand ← operation fuel Kind.unaryPrecedence
          return Expr.unary operator operand) fun e _ => e.ProperOperand := by
      refine .advance inside fun rest htokens => ?_
      rw [htokens, List.length_cons] at enough
      refine (yieldsAt_operation fuel _ (by omega)).map fun operand _ part => ?_
      exact ⟨⟨⟨part.single, part.plain⟩, part.fits_plain part.plain⟩, rfl, rfl⟩
    split
    next h => exact literal (by simp [h])
    next h => exact literal (by simp [h])
    next h => exact literal (by simp [h])
    next h => exact literal (by simp [h])
    next h =>
      refine .peekSecond ?_
      split
      · refine .expect_current h (by decide) fun rest htokens => ?_
        rw [htokens, List.length_cons] at enough
        refine .expect fun opening rest' shorter => ?_
        refine (yieldsAt_arguments fuel (by omega)).bind fun arguments _ _ parts => ?_
        refine .expect fun closing _ _ => .pure ?_
        exact ⟨⟨trivial, Expr.fits_occurrencesAll parts⟩, rfl, rfl⟩
      · refine .advance (by simp [h]) fun _ _ => .pure ?_
        exact ⟨⟨trivial, List.forall_mem_nil _⟩, rfl, rfl⟩
    next h =>
      refine .advance (by simp [h]) fun rest htokens => ?_
      rw [htokens, List.length_cons] at enough
      refine (yieldsAt_expression fuel (by omega)).bind fun inner _ _ part => ?_
      exact .expect fun closing _ _ => .pure ⟨⟨trivial, part.fits rfl⟩, rfl, rfl⟩
    next h => exact prefixed (by simp [h])
    next h => exact prefixed (by simp [h])
    next h => exact prefixed (by simp [h])
    next h => exact prefixed (by simp [h])
    next => exact yieldsAt_absentExpr

/-- Arguments are proper. -/
theorem yieldsAt_arguments (fuel : Nat) {tokens : List Token}
    (enough : 4 * tokens.length + 4 ≤ fuel) :
    YieldsAt tokens (arguments fuel) fun es _ => ∀ e ∈ es, e.Proper := by
  cases fuel with
  | zero => omega
  | succ fuel =>
    refine .peek ?_
    split
    · exact .pure (List.forall_mem_nil _)
    · exact .pure (List.forall_mem_nil _)
    · refine (yieldsAt_expression fuel (by omega)).bind fun first rest shorter part => ?_
      refine (yieldsAt_furtherArguments fuel (by omega)).map fun others _ parts => ?_
      exact List.forall_mem_cons.2 ⟨part, parts⟩

/-- Further arguments are proper. -/
theorem yieldsAt_furtherArguments (fuel : Nat) {tokens : List Token}
    (enough : 4 * tokens.length + 1 ≤ fuel) :
    YieldsAt tokens (furtherArguments fuel) fun es _ => ∀ e ∈ es, e.Proper := by
  cases fuel with
  | zero => omega
  | succ fuel =>
    refine .peek ?_
    split
    next separates =>
      refine .advance (by simp [separates]) fun rest htokens => ?_
      rw [htokens, List.length_cons] at enough
      refine (yieldsAt_expression fuel (by omega)).bind fun next rest' shorter part => ?_
      refine (yieldsAt_furtherArguments fuel (by omega)).map fun others _ parts => ?_
      exact List.forall_mem_cons.2 ⟨part, parts⟩
    next => exact .pure (List.forall_mem_nil _)

end

mutual

/-- The expressions of a statement are proper. -/
theorem yieldsAt_statement (fuel : Nat) {tokens : List Token}
    (enough : 4 * tokens.length + 4 ≤ fuel) :
    YieldsAt tokens (statement fuel) fun s _ => s.Proper := by
  cases fuel with
  | zero => omega
  | succ fuel =>
    refine .peek ?_
    have declaration (inside : (current tokens).kind ≠ .eof) :
        YieldsAt tokens (do
          let keyword ← advance
          let identifier ← expect .identifier
          let equals ← expect .assignment
          let initializer ← expression fuel
          return Stmt.declaration keyword identifier equals initializer) fun s _ => s.Proper := by
      refine .advance inside fun rest htokens => ?_
      rw [htokens, List.length_cons] at enough
      refine .expect fun identifier rest shorter => ?_
      refine .expect fun equals rest' shorter' => ?_
      exact (yieldsAt_expression fuel (by omega)).map fun initializer _ part => part.fits rfl
    split
    next h =>
      refine .expect_current h (by decide) fun rest htokens => ?_
      rw [htokens, List.length_cons] at enough
      refine (yieldsAt_statements fuel (by omega)).bind fun statements _ _ parts => ?_
      exact .expect fun closing _ _ => .pure parts
    next h => exact declaration (by simp [h])
    next h => exact declaration (by simp [h])
    next h =>
      refine .advance (by simp [h]) fun rest htokens => ?_
      rw [htokens, List.length_cons] at enough
      refine (yieldsAt_expression fuel (by omega)).bind fun condition rest shorter test => ?_
      refine (yieldsAt_statement fuel (by omega)).bind fun consequence rest' shorter' part => ?_
      refine .peek ?_
      split
      next helse =>
        refine .advance (by simp [helse]) fun rest'' hrest => ?_
        rw [hrest, List.length_cons] at shorter'
        refine (yieldsAt_statement fuel (by omega)).map fun alternative _ part' => ?_
        exact List.forall_mem_append.2 ⟨test.fits rfl, List.forall_mem_append.2 ⟨part, part'⟩⟩
      next => exact .pure (List.forall_mem_append.2 ⟨test.fits rfl, part⟩)
    next h =>
      refine .advance (by simp [h]) fun rest htokens => ?_
      rw [htokens, List.length_cons] at enough
      refine (yieldsAt_expression fuel (by omega)).bind fun condition rest shorter test => ?_
      refine (yieldsAt_statement fuel (by omega)).map fun body _ part => ?_
      exact List.forall_mem_append.2 ⟨test.fits rfl, part⟩
    next h =>
      refine .advance (by simp [h]) fun rest htokens => ?_
      rw [htokens, List.length_cons] at enough
      refine .expect fun identifier rest shorter => ?_
      refine .expect fun equals rest' shorter' => ?_
      refine (yieldsAt_expression fuel (by omega)).bind fun lower rest'' shorter'' first => ?_
      refine .expect fun toWord rest₃ shorter₃ => ?_
      refine (yieldsAt_expression fuel (by omega)).bind fun upper rest₄ shorter₄ last => ?_
      refine (yieldsAt_statement fuel (by omega)).map fun body _ part => ?_
      exact List.forall_mem_append.2
        ⟨first.fits rfl, List.forall_mem_append.2 ⟨last.fits rfl, part⟩⟩
    next => exact (yieldsAt_expression fuel (by omega)).map fun inner _ part => part.fits rfl

/-- The expressions of the statements of a block are proper. -/
theorem yieldsAt_statements (fuel : Nat) {tokens : List Token}
    (enough : 4 * tokens.length + 5 ≤ fuel) :
    YieldsAt tokens (statements fuel) fun ss _ => ∀ o ∈ Stmt.occurrencesAll ss, Expr.Fits o := by
  cases fuel with
  | zero => omega
  | succ fuel =>
    refine .peek ?_
    split
    · exact .pure (List.forall_mem_nil _)
    · exact .pure (List.forall_mem_nil _)
    next inside =>
      refine .state ?_
      refine (yieldsAt_statement fuel (by omega)).bind fun first rest shorter part => ?_
      refine .state ?_
      split
      next still =>
        -- Nothing was taken of the tokens, which are not at their end, so one is left to skip.
        have nonempty : rest ≠ [] := by
          rintro rfl
          obtain rfl := List.length_eq_zero_iff.1 still.symm
          exact inside rfl
        refine .take nonempty fun rest' hrest => ?_
        rw [hrest, List.length_cons] at shorter
        refine (yieldsAt_statements fuel (by omega)).map fun others _ parts => ?_
        exact List.forall_mem_append.2 ⟨part, parts⟩
      next =>
        refine (yieldsAt_statements fuel (by omega)).map fun others _ parts => ?_
        exact List.forall_mem_append.2 ⟨part, parts⟩

end

end Parser

/-- The expressions of a parsed tree stand where they may and group their operators by
precedence. -/
theorem fits_parse (tokens : List Token) :
    ∀ o ∈ (parse tokens).1.statement.occurrences, Expr.Fits o :=
  (yieldsAt_statement (4 * (terminated tokens).length + 4) (Nat.le_refl _)).2

/-- Precedence holds in every tree. Whatever tokens are parsed, an operator between
two operands has a precedence, its left operand is no such operation of lower
precedence, and its right operand none of lower or equal precedence. The operand of an
operator in front is neither such an operation nor an assignment. An assignment is a
whole statement, initializer, condition or bound, the value of another assignment, an
argument of a call or in parentheses. -/
theorem parse_respects_precedence (tokens : List Token) :
    (∀ place left operator right,
      (place, .binary left operator right) ∈ (parse tokens).1.statement.occurrences →
      ∃ p, operator.kind.binaryPrecedence? = some p ∧ (∀ q ∈ left.precedence?, p ≤ q) ∧
        ∀ q ∈ right.precedence?, p < q) ∧
    (∀ place operator operand,
      (place, .unary operator operand) ∈ (parse tokens).1.statement.occurrences →
      operand.isBinary = false ∧ operand.isAssignment = false) ∧
    ∀ place identifier equals value,
      (place, .assignment identifier equals value) ∈ (parse tokens).1.statement.occurrences →
      place ∈ [.statement, .initializer, .condition, .bound, .value, .argument, .parentheses] := by
  refine ⟨fun _ _ _ _ h => (fits_parse tokens _ h).ranked,
    fun _ _ _ h => (fits_parse tokens _ h).ranked, fun place _ _ _ h => ?_⟩
  have takes := (fits_parse tokens _ h).placed rfl
  cases place with
  | side | operand => cases takes
  | _ => decide

/-- A doubled operator, an assignment behind an operator and parentheses that are not
closed, without an end. -/
def brokenSample : List Token := (tokenize "2 - * 3 - (a = -b").tokens.dropLast

/-- The tokens are parsed with reports, into a difference on the left of a difference
of the same precedence. -/
theorem parse_respects_precedence_brokenSample :
    (parse brokenSample).2 ≠ [] ∧ ∃ left operator right,
      (.statement, .binary left operator right) ∈ (parse brokenSample).1.statement.occurrences ∧
      operator.kind = .dash ∧ left.precedence? = some 4 ∧ ∀ q ∈ right.precedence?, 4 < q := by
  refine ⟨by decide, _, _, _, List.mem_cons_self, rfl, rfl, ?_⟩
  obtain ⟨p, operates, -, tighter⟩ :=
    (parse_respects_precedence brokenSample).1 _ _ _ _ List.mem_cons_self
  obtain rfl : 4 = p := Option.some.inj operates
  exact tighter

end Scriptlet.Syntax
