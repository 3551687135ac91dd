import Scriptlet.Proofs.Parsing.Canonical

/-!
# Canonical trees are read back

Whatever follows the tokens of a canonical tree, the parser reads the tree and
stops behind it, as long as the next token does not go on with it. The number of
nested calls that this takes is bounded by the number of tokens left: a call
passes a token at least once in four.
-/

namespace Scriptlet.Syntax

open Reporting

namespace Parser

variable {α : Type} {token : Token} {tokens rest : List Token} {kind : Kind}

@[simp] theorem run_peek : peek.run tokens = ⟨(current tokens).kind, tokens, []⟩ := rfl

@[simp] theorem run_peekSecond :
    peekSecond.run tokens = ⟨(current tokens.tail).kind, tokens, []⟩ := rfl

@[simp] theorem run_advance : advance.run (token :: rest) = ⟨token, rest, []⟩ := rfl

@[simp] theorem current_cons : current (token :: rest) = token := rfl

/-- A token of the required kind is taken. -/
theorem run_expect (h : token.kind = kind) :
    (expect kind).run (token :: rest) = ⟨token, rest, []⟩ := by
  simp [expect, h]

/-- Wherever the tokens stand in front of others that satisfy a condition, the
parser reads a tree from them, takes no others and reports nothing, if it is
granted four calls for every token left and some more. -/
def Reads (m : Nat → Parser α) (more : Nat) (tokens : List Token) (a : α)
    (next : List Token → Prop) : Prop :=
  ∀ fuel rest, next rest → 4 * (tokens.length + rest.length) + more ≤ fuel →
    (m fuel).run (tokens ++ rest) = ⟨a, rest, []⟩

end Parser

open Scriptlet.Syntax.Parser

namespace Expr

/-- No token of the kind makes a call of the name with which an expression ends. -/
def EndsBefore (e : Expr) (k : Kind) : Prop := e.last.kind = .identifier → k ≠ .openParen

/-- An operand is read where no call of it follows. -/
def ReadAsOperand (e : Expr) : Prop :=
  ∀ tokens, e.WrittenAs tokens →
    Reads operand 1 tokens e fun rest => e.EndsBefore (current rest).kind

/-- An operation is read as far as the operators behind it are to be weighed. -/
def ReadAsLeft (e : Expr) : Prop :=
  ∀ bound tokens fuel rest, e.WrittenAs tokens → (∀ q ∈ e.precedence?, bound < q) →
    (∀ p ∈ e.precedence?, ∀ q ∈ (current rest).kind.binaryPrecedence?, q ≤ p) →
    e.EndsBefore (current rest).kind → 4 * (tokens.length + rest.length) + 2 ≤ fuel →
    ∃ fuel', 4 * rest.length + 1 ≤ fuel' ∧
      (operation fuel bound).run (tokens ++ rest) = (extend fuel' bound e).run rest

/-- No token of the kind goes on with the expression in front of it. -/
structure StopsBefore (e : Expr) (k : Kind) : Prop where
  no_operator : k.binaryPrecedence? = none
  no_call : e.EndsBefore k
  no_assignment : k ≠ .assignment

/-- An expression is read where the next token does not go on with it. -/
def ReadAsExpression (e : Expr) : Prop :=
  ∀ tokens, e.WrittenAs tokens →
    Reads expression 3 tokens e fun rest => e.StopsBefore (current rest).kind

variable {e : Expr} {bound : Nat}

/-- The kinds of tokens behind an expression that belong to no other one stop it. -/
theorem stopsBefore_of_mem {k : Kind}
    (h : k ∈ [.comma, .closeParen, .toWord, .elseWord, .closeCurly, .eof]) : e.StopsBefore k := by
  have kinds : ∀ k ∈ [Kind.comma, .closeParen, .toWord, .elseWord, .closeCurly, .eof],
      k.binaryPrecedence? = none ∧ k ≠ .openParen ∧ k ≠ .assignment := by decide
  obtain ⟨no_operator, no_call, no_assignment⟩ := kinds k h
  exact ⟨no_operator, fun _ => no_call, no_assignment⟩

/-- A statement that may follow an expression stops it. -/
theorem Precedes.stopsBefore {next : Token} (h : e.Precedes next)
    (starts : next.kind.startsStmt = true) : e.StopsBefore next.kind := by
  have kinds : ∀ k : Kind, k.startsStmt = true → k ≠ .plus → k ≠ .dash →
      k.binaryPrecedence? = none ∧ k ≠ .assignment := by
    intro k
    cases k <;> decide
  obtain ⟨no_operator, no_assignment⟩ := kinds next.kind starts h.not_plus h.not_dash
  exact ⟨no_operator, h.not_call, no_assignment⟩

/-- An operator that does not bind tighter than the bound is left alone. -/
theorem run_extend_of_le {fuel : Nat} {rest : List Token} (hfuel : 0 < fuel)
    (stops : ∀ q ∈ (current rest).kind.binaryPrecedence?, q ≤ bound) :
    (extend fuel bound e).run rest = ⟨e, rest, []⟩ := by
  obtain ⟨fuel, rfl⟩ : ∃ k, fuel = k + 1 := ⟨fuel - 1, by omega⟩
  rw [extend]
  cases hnext : (current rest).kind.binaryPrecedence? with
  | none => simp [hnext]
  | some q =>
    have hq : ¬ bound < q := Nat.not_lt.2 (stops q hnext)
    simp [hnext, hq]

/-- What is read as a left operand is read as an operation where the operators
behind it do not bind tighter than the bound. -/
theorem ReadAsLeft.operation (h : e.ReadAsLeft) {tokens : List Token} (written : e.WrittenAs tokens)
    (tight : ∀ q ∈ e.precedence?, bound < q) :
    Reads (fun fuel => operation fuel bound) 2 tokens e fun rest =>
      (∀ q ∈ (current rest).kind.binaryPrecedence?, q ≤ bound) ∧
        e.EndsBefore (current rest).kind := by
  intro fuel rest ⟨stops, ends⟩ hfuel
  have loose : ∀ p ∈ e.precedence?, ∀ q ∈ (current rest).kind.binaryPrecedence?, q ≤ p := by
    intro p hp q hq
    have hbound := tight p hp
    have hstop := stops q hq
    omega
  obtain ⟨fuel', hfuel', hrun⟩ := h bound tokens fuel rest written tight loose ends hfuel
  have hpositive : 0 < fuel' := by omega
  exact hrun.trans (run_extend_of_le hpositive stops)

/-- An expression other than an assignment does not begin like one. -/
theorem Canonical.not_begins_assignment (h : e.Canonical) (plain : e.isAssignment = false)
    {tokens rest : List Token} (written : e.WrittenAs tokens)
    (apart : (current rest).kind ≠ .assignment) :
    ¬ ((current (tokens ++ rest)).kind = .identifier ∧
      (current (tokens ++ rest).tail).kind = .assignment) := by
  induction h generalizing tokens rest with
  | literal value =>
    cases written
    rintro ⟨hkind, -⟩
    rw [List.singleton_append, current_cons] at hkind
    rw [hkind] at value
    cases value
  | name =>
    cases written
    exact fun h => apart h.2
  | assignment => cases plain
  | unary operates =>
    cases written
    rintro ⟨hkind, -⟩
    rw [List.cons_append, current_cons] at hkind
    rw [hkind] at operates
    cases operates
  | binary operates _ _ _ leftPlain _ _ _ ih =>
    cases written with
    | binary part part' =>
      rw [List.append_assoc]
      refine ih leftPlain part ?_
      rw [List.cons_append, current_cons]
      intro hkind
      rw [hkind] at operates
      cases operates
  | grouped opened =>
    cases written
    rintro ⟨hkind, -⟩
    rw [List.cons_append, current_cons, opened.kind_eq] at hkind
    cases hkind
  | call _ opened =>
    cases written
    rintro ⟨-, hkind⟩
    rw [List.cons_append, List.tail_cons, List.cons_append, current_cons, opened.kind_eq] at hkind
    cases hkind

/-- What is read as a left operand is read as an expression. -/
theorem ReadAsLeft.expression (h : e.ReadAsLeft) (canonical : e.Canonical)
    (plain : e.isAssignment = false) : e.ReadAsExpression := by
  intro tokens written fuel rest stops hfuel
  obtain ⟨fuel, rfl⟩ : ∃ k, fuel = k + 1 := ⟨fuel - 1, by omega⟩
  have begins := canonical.not_begins_assignment plain written stops.no_assignment
  have positive : ∀ q ∈ e.precedence?, 0 < q := by
    intro q hq
    cases e with
    | binary => exact (Kind.binaryPrecedence_lt hq).1
    | _ => cases hq
  have loose : ∀ q ∈ (current rest).kind.binaryPrecedence?, q ≤ 0 := by
    rw [stops.no_operator]
    exact nofun
  have hrun := h.operation written positive fuel rest ⟨loose, stops.no_call⟩ (by omega)
  simp only [Parser.expression, run_bind, run_peek, run_peekSecond, begins, if_false, hrun,
    List.append_nil]

/-- What is read as an operand is read as a left operand. -/
theorem ReadAsOperand.left (h : e.ReadAsOperand) : e.ReadAsLeft := by
  intro bound tokens fuel rest written _ _ ends hfuel
  obtain ⟨fuel, rfl⟩ : ∃ k, fuel = k + 1 := ⟨fuel - 1, by omega⟩
  have hrun := h tokens written fuel rest ends (by omega)
  refine ⟨fuel, by omega, ?_⟩
  simp only [Parser.operation, run_bind, hrun, List.nil_append]

/-- How an expression is read: as a whole, and as a left operand unless it is an
assignment. -/
structure ReadBack (e : Expr) : Prop where
  expression : e.ReadAsExpression
  left : e.isAssignment = false → e.ReadAsLeft

/-- An operand is read back if it is read as an operand. -/
theorem ReadAsOperand.readBack (h : e.ReadAsOperand) (canonical : e.Canonical)
    (plain : e.isAssignment = false) : e.ReadBack :=
  ⟨h.left.expression canonical plain, fun _ => h.left⟩

/-- A literal is read as an operand. -/
theorem readAsOperand_literal {token : Token} (value : token.kind.isLiteral) :
    (literal token).ReadAsOperand := by
  intro tokens written fuel rest _ hfuel
  obtain ⟨fuel, rfl⟩ : ∃ k, fuel = k + 1 := ⟨fuel - 1, by omega⟩
  cases written
  have kinds : token.kind = .number ∨ token.kind = .string ∨ token.kind = .trueWord ∨
      token.kind = .falseWord := by
    revert value
    cases token.kind <;> simp [Kind.isLiteral]
  rcases kinds with h | h | h | h <;> simp [operand, h]

/-- A name is read as an operand. -/
theorem readAsOperand_name {identifier : Token} (named : identifier.kind = .identifier) :
    (name identifier).ReadAsOperand := by
  intro tokens written fuel rest ends hfuel
  obtain ⟨fuel, rfl⟩ : ∃ k, fuel = k + 1 := ⟨fuel - 1, by omega⟩
  cases written
  have apart : (current rest).kind ≠ .openParen := ends named
  simp [operand, named, apart]

/-- An operator with its operand is read as an operand. -/
theorem readAsOperand_unary {operator : Token} {operand : Expr}
    (operates : operator.kind.isUnaryOperator) (part : operand.ReadAsLeft)
    (single : operand.precedence? = none) : (unary operator operand).ReadAsOperand := by
  intro tokens written fuel rest ends hfuel
  obtain ⟨fuel, rfl⟩ : ∃ k, fuel = k + 1 := ⟨fuel - 1, by omega⟩
  cases written with
  | unary inside =>
    have stops : ∀ q ∈ (current rest).kind.binaryPrecedence?, q ≤ Kind.unaryPrecedence :=
      fun q hq => Nat.le_of_lt (Kind.binaryPrecedence_lt hq).2
    have tight : ∀ q ∈ operand.precedence?, Kind.unaryPrecedence < q := by
      rw [single]
      exact nofun
    rw [List.length_cons] at hfuel
    have hrun := part.operation inside tight fuel rest ⟨stops, ends⟩ (by omega)
    have kinds : operator.kind = .plus ∨ operator.kind = .dash ∨ operator.kind = .not ∨
        operator.kind = .tilde := by
      revert operates
      cases operator.kind <;> simp [Kind.isUnaryOperator]
    rcases kinds with h | h | h | h <;> simp [Parser.operand, h, hrun]

/-- An expression in parentheses is read as an operand. -/
theorem readAsOperand_grouped {opening closing : Token} {inner : Expr}
    (opened : opening.kind = .openParen) (part : inner.ReadAsExpression)
    (closed : closing.kind = .closeParen) : (grouped opening inner closing).ReadAsOperand := by
  intro tokens written fuel rest _ hfuel
  obtain ⟨fuel, rfl⟩ : ∃ k, fuel = k + 1 := ⟨fuel - 1, by omega⟩
  cases written with
  | grouped inside =>
    simp only [List.length_cons, List.length_append, List.length_nil] at hfuel
    have stops : inner.StopsBefore closing.kind := stopsBefore_of_mem (by simp [closed])
    have hrun := part _ inside fuel (closing :: rest) stops (by rw [List.length_cons]; omega)
    simp [operand, opened, hrun, run_expect closed]

/-- An argument is stopped by the further arguments or the end of the call. -/
theorem stopsBefore_further {es : List Expr} {tokens rest : List Token}
    (further : FurtherWrittenAs es tokens) (closes : (current rest).kind = .closeParen) :
    e.StopsBefore (current (tokens ++ rest)).kind := by
  cases further with
  | nil => exact stopsBefore_of_mem (by simp [closes])
  | cons separates => exact stopsBefore_of_mem (by simp [separates])

/-- Further arguments are read up to the closing parenthesis. -/
theorem reads_furtherArguments {es : List Expr} {tokens : List Token}
    (parts : ∀ e ∈ es, e.ReadAsExpression) (written : FurtherWrittenAs es tokens) :
    Reads furtherArguments 1 tokens es fun rest => (current rest).kind = .closeParen := by
  induction es generalizing tokens with
  | nil =>
    intro fuel rest closes hfuel
    obtain ⟨fuel, rfl⟩ : ∃ k, fuel = k + 1 := ⟨fuel - 1, by omega⟩
    cases written
    simp [furtherArguments, closes]
  | cons e es ih =>
    intro fuel rest closes hfuel
    obtain ⟨fuel, rfl⟩ : ∃ k, fuel = k + 1 := ⟨fuel - 1, by omega⟩
    rw [List.forall_mem_cons] at parts
    cases written with
    | @cons comma _ _ tokens tokens' separates part further =>
      simp only [List.length_cons, List.length_append] at hfuel
      have stops := stopsBefore_further (e := e) further closes
      have first := parts.1 _ part fuel (tokens' ++ rest) stops
        (by rw [List.length_append]; omega)
      have others := ih parts.2 further fuel rest closes (by omega)
      simp [furtherArguments, separates, first, others]

/-- Arguments are read up to the closing parenthesis. -/
theorem reads_arguments {es : List Expr} {tokens : List Token}
    (canonical : ∀ e ∈ es, e.Canonical) (parts : ∀ e ∈ es, e.ReadAsExpression)
    (written : AllWrittenAs es tokens) :
    Reads arguments 4 tokens es fun rest => (current rest).kind = .closeParen := by
  intro fuel rest closes hfuel
  obtain ⟨fuel, rfl⟩ : ∃ k, fuel = k + 1 := ⟨fuel - 1, by omega⟩
  cases written with
  | nil => simp [arguments, closes]
  | @cons e es tokens tokens' part further =>
    rw [List.forall_mem_cons] at canonical parts
    rw [List.length_append] at hfuel
    have begins : (current (tokens ++ tokens' ++ rest)).kind.startsExpr = true := by
      rw [List.append_assoc, part.current_eq]
      exact canonical.1.startsExpr_first
    have stops := stopsBefore_further (e := e) further closes
    have hfirst := parts.1 _ part fuel (tokens' ++ rest) stops
      (by rw [List.length_append]; omega)
    have hothers := reads_furtherArguments parts.2 further fuel rest closes (by omega)
    simp only [arguments, run_bind, run_peek]
    split
    next h => rw [h] at begins; cases begins
    next h => rw [h] at begins; cases begins
    next => simp [List.append_assoc, hfirst, hothers]

/-- A call is read as an operand. -/
theorem readAsOperand_call {identifier opening closing : Token} {es : List Expr}
    (named : identifier.kind = .identifier) (opened : opening.kind = .openParen)
    (canonical : ∀ e ∈ es, e.Canonical) (parts : ∀ e ∈ es, e.ReadAsExpression)
    (closed : closing.kind = .closeParen) :
    (call identifier opening es closing).ReadAsOperand := by
  intro tokens written fuel rest _ hfuel
  obtain ⟨fuel, rfl⟩ : ∃ k, fuel = k + 1 := ⟨fuel - 1, by omega⟩
  cases written with
  | call inside =>
    simp only [List.length_cons, List.length_append, List.length_nil] at hfuel
    have hrun := reads_arguments canonical parts inside fuel (closing :: rest) closed
      (by rw [List.length_cons]; omega)
    simp [operand, named, opened, hrun, run_expect named, run_expect opened, run_expect closed]

/-- An operator between two operands is read as a left operand: first what
stands in front of it, then what binds tighter behind it. -/
theorem readAsLeft_binary {left right : Expr} {operator : Token} {p : Nat}
    (operates : operator.kind.binaryPrecedence? = some p) (part : left.ReadAsLeft)
    (part' : right.ReadAsLeft) (loose : ∀ q ∈ left.precedence?, p ≤ q)
    (tight : ∀ q ∈ right.precedence?, p < q) : (binary left operator right).ReadAsLeft := by
  intro bound tokens fuel rest written above stops ends hfuel
  have hbound : bound < p := above p operates
  cases written with
  | @binary _ _ _ tokens tokens' inside inside' =>
    simp only [List.length_append, List.length_cons] at hfuel
    have aboveLeft : ∀ q ∈ left.precedence?, bound < q :=
      fun q hq => Nat.lt_of_lt_of_le hbound (loose q hq)
    have stopsLeft : ∀ q ∈ left.precedence?,
        ∀ r ∈ (current (operator :: (tokens' ++ rest))).kind.binaryPrecedence?, r ≤ q := by
      intro q hq r hr
      rw [current_cons, operates, Option.mem_def, Option.some.injEq] at hr
      exact hr ▸ loose q hq
    have endsLeft : left.EndsBefore (current (operator :: (tokens' ++ rest))).kind := by
      intro _ hcall
      rw [current_cons] at hcall
      rw [hcall] at operates
      cases operates
    obtain ⟨fuel', hfuel', hleft⟩ := part bound tokens fuel (operator :: (tokens' ++ rest)) inside
      aboveLeft stopsLeft endsLeft (by rw [List.length_cons, List.length_append]; omega)
    rw [List.length_cons, List.length_append] at hfuel'
    obtain ⟨fuel', rfl⟩ : ∃ k, fuel' = k + 1 := ⟨fuel' - 1, by omega⟩
    have stopsRight : ∀ q ∈ (current rest).kind.binaryPrecedence?, q ≤ p := stops p operates
    have hright := part'.operation inside' tight fuel' rest ⟨stopsRight, ends⟩ (by omega)
    refine ⟨fuel', by omega, ?_⟩
    rw [List.append_assoc, List.cons_append, hleft, extend]
    simp [operates, hbound, hright]

/-- An assignment is read as an expression. -/
theorem readAsExpression_assignment {identifier equals : Token} {value : Expr}
    (named : identifier.kind = .identifier) (assigned : equals.kind = .assignment)
    (part : value.ReadAsExpression) : (assignment identifier equals value).ReadAsExpression := by
  intro tokens written fuel rest stops hfuel
  obtain ⟨fuel, rfl⟩ : ∃ k, fuel = k + 1 := ⟨fuel - 1, by omega⟩
  cases written with
  | assignment inside =>
    simp only [List.length_cons] at hfuel
    have stopsValue : value.StopsBefore (current rest).kind :=
      ⟨stops.no_operator, stops.no_call, stops.no_assignment⟩
    have hrun := part _ inside fuel rest stopsValue (by omega)
    simp [Parser.expression, named, assigned, run_expect named, run_expect assigned, hrun]

/-- Canonical expressions are read back. -/
theorem Canonical.readBack (h : e.Canonical) : e.ReadBack := by
  induction h with
  | literal value present =>
    exact (readAsOperand_literal value).readBack (.literal value present) rfl
  | name named => exact (readAsOperand_name named.kind_eq).readBack (.name named) rfl
  | assignment named assigned part ih =>
    exact ⟨readAsExpression_assignment named.kind_eq assigned.kind_eq ih.expression, nofun⟩
  | unary operates present part single plain ih =>
    have asOperand := readAsOperand_unary operates (ih.left plain) single
    exact asOperand.readBack (.unary operates present part single plain) rfl
  | binary operates present part part' plain plain' loose tight ih ih' =>
    have asLeft := readAsLeft_binary operates (ih.left plain) (ih'.left plain') loose tight
    have canonical := Canonical.binary operates present part part' plain plain' loose tight
    exact ⟨asLeft.expression canonical rfl, fun _ => asLeft⟩
  | grouped opened part closed ih =>
    have asOperand := readAsOperand_grouped opened.kind_eq ih.expression closed.kind_eq
    exact asOperand.readBack (.grouped opened part closed) rfl
  | call named opened parts closed ih =>
    have asOperand := readAsOperand_call named.kind_eq opened.kind_eq parts
      (fun e he => (ih e he).expression) closed.kind_eq
    exact asOperand.readBack (.call named opened parts closed) rfl

end Expr

namespace Stmt

/-- No token of the kind goes on with the statement in front of it. -/
structure StopsBefore (s : Stmt) (k : Kind) : Prop where
  ends : ∀ e ∈ s.ending?, e.StopsBefore k
  no_alternative : s.endsOpen = true → k ≠ .elseWord

/-- A statement is read where the next token does not go on with it. -/
def ReadBack (s : Stmt) : Prop :=
  ∀ tokens, s.WrittenAs tokens →
    Reads statement 4 tokens s fun rest => s.StopsBefore (current rest).kind

variable {s consequence alternative body : Stmt} {condition inner : Expr}

/-- The tokens of a canonical statement begin as statements do. -/
theorem startsStmt_written (rest : List Token) {tokens : List Token} (canonical : s.Canonical)
    (written : s.WrittenAs tokens) :
    (current (tokens ++ rest)).kind.startsStmt = true := by
  rw [written.current_eq]
  exact canonical.startsStmt_first

/-- An expression is stopped by the statement that follows it. -/
theorem stopsBefore_written (rest : List Token) {tokens : List Token} (canonical : s.Canonical)
    (written : s.WrittenAs tokens) (apart : condition.Precedes s.first) :
    condition.StopsBefore (current (tokens ++ rest)).kind := by
  rw [written.current_eq]
  exact apart.stopsBefore canonical.startsStmt_first

/-- A statement that is an expression is read. -/
theorem readBack_expression (canonical : inner.Canonical) : (expression inner).ReadBack := by
  intro tokens written fuel rest stops hfuel
  obtain ⟨fuel, rfl⟩ : ∃ k, fuel = k + 1 := ⟨fuel - 1, by omega⟩
  cases written with
  | expression inside =>
    have begins : (current (tokens ++ rest)).kind.startsExpr = true := by
      rw [inside.current_eq]
      exact canonical.startsExpr_first
    have hrun := canonical.readBack.expression _ inside fuel rest (stops.ends inner rfl) (by omega)
    simp only [statement, run_bind, run_peek]
    split
    case h_7 => simp [hrun]
    -- No expression begins with the word or the brace of another statement.
    all_goals
      rename_i other
      rw [other] at begins
      cases begins

/-- A declaration is read. -/
theorem readBack_declaration {keyword identifier equals : Token} {initializer : Expr}
    (declares : keyword.kind = .varWord ∨ keyword.kind = .letWord)
    (named : identifier.kind = .identifier) (assigned : equals.kind = .assignment)
    (part : initializer.ReadAsExpression) :
    (declaration keyword identifier equals initializer).ReadBack := by
  intro tokens written fuel rest stops hfuel
  obtain ⟨fuel, rfl⟩ : ∃ k, fuel = k + 1 := ⟨fuel - 1, by omega⟩
  cases written with
  | declaration inside =>
    simp only [List.length_cons] at hfuel
    have hrun := part _ inside fuel rest (stops.ends initializer rfl) (by omega)
    rcases declares with declares | declares <;>
      simp [statement, declares, run_expect named, run_expect assigned, hrun]

/-- A condition without an alternative is read where no alternative follows. -/
theorem readBack_ifThen {keyword : Token} (tests : keyword.kind = .ifWord)
    (test : condition.ReadAsExpression) (canonical : consequence.Canonical)
    (part : consequence.ReadBack) (apart : condition.Precedes consequence.first) :
    (ifThen keyword condition consequence).ReadBack := by
  intro tokens written fuel rest stops hfuel
  obtain ⟨fuel, rfl⟩ : ∃ k, fuel = k + 1 := ⟨fuel - 1, by omega⟩
  have noElse := stops.no_alternative rfl
  cases written with
  | @ifThen _ _ _ tokens tokens' inside inside' =>
    simp only [List.length_cons, List.length_append] at hfuel
    have stopsTest := stopsBefore_written rest canonical inside' apart
    have htest := test _ inside fuel (tokens' ++ rest) stopsTest
      (by rw [List.length_append]; omega)
    have stopsPart : consequence.StopsBefore (current rest).kind := ⟨stops.ends, fun _ => noElse⟩
    have hpart := part _ inside' fuel rest stopsPart (by omega)
    simp [statement, tests, htest, hpart, noElse]

/-- A condition with an alternative is read. -/
theorem readBack_ifElse {keyword elseWord : Token} (tests : keyword.kind = .ifWord)
    (test : condition.ReadAsExpression) (canonical : consequence.Canonical)
    (part : consequence.ReadBack) (apart : condition.Precedes consequence.first)
    (closed : consequence.endsOpen = false) (otherwise : elseWord.kind = .elseWord)
    (part' : alternative.ReadBack) :
    (ifElse keyword condition consequence elseWord alternative).ReadBack := by
  intro tokens written fuel rest stops hfuel
  obtain ⟨fuel, rfl⟩ : ∃ k, fuel = k + 1 := ⟨fuel - 1, by omega⟩
  cases written with
  | @ifElse _ _ _ _ _ tokens tokens' tokens'' inside inside' inside'' =>
    simp only [List.length_cons, List.length_append] at hfuel
    have stopsTest := stopsBefore_written (elseWord :: (tokens'' ++ rest)) canonical inside' apart
    have htest := test _ inside fuel (tokens' ++ elseWord :: (tokens'' ++ rest)) stopsTest
      (by rw [List.length_append, List.length_cons, List.length_append]; omega)
    have stopsPart : consequence.StopsBefore elseWord.kind := by
      refine ⟨fun e _ => Expr.stopsBefore_of_mem (by simp [otherwise]), fun ends => ?_⟩
      rw [closed] at ends
      cases ends
    have hpart := part _ inside' fuel (elseWord :: (tokens'' ++ rest)) stopsPart
      (by rw [List.length_cons, List.length_append]; omega)
    have stopsPart' : alternative.StopsBefore (current rest).kind :=
      ⟨stops.ends, stops.no_alternative⟩
    have hpart' := part' _ inside'' fuel rest stopsPart' (by omega)
    simp [statement, tests, htest, hpart, otherwise, hpart']

/-- A loop with a condition is read. -/
theorem readBack_whileLoop {keyword : Token} (repeats : keyword.kind = .whileWord)
    (test : condition.ReadAsExpression) (canonical : body.Canonical) (part : body.ReadBack)
    (apart : condition.Precedes body.first) : (whileLoop keyword condition body).ReadBack := by
  intro tokens written fuel rest stops hfuel
  obtain ⟨fuel, rfl⟩ : ∃ k, fuel = k + 1 := ⟨fuel - 1, by omega⟩
  cases written with
  | @whileLoop _ _ _ tokens tokens' inside inside' =>
    simp only [List.length_cons, List.length_append] at hfuel
    have stopsTest := stopsBefore_written rest canonical inside' apart
    have htest := test _ inside fuel (tokens' ++ rest) stopsTest
      (by rw [List.length_append]; omega)
    have stopsPart : body.StopsBefore (current rest).kind := ⟨stops.ends, stops.no_alternative⟩
    have hpart := part _ inside' fuel rest stopsPart (by omega)
    simp [statement, repeats, htest, hpart]

/-- A counting loop is read. -/
theorem readBack_forLoop {keyword identifier equals toWord : Token} {lower upper : Expr}
    (repeats : keyword.kind = .forWord) (named : identifier.kind = .identifier)
    (assigned : equals.kind = .assignment) (start : lower.ReadAsExpression)
    (reaches : toWord.kind = .toWord) (stop : upper.ReadAsExpression) (canonical : body.Canonical)
    (part : body.ReadBack) (apart : upper.Precedes body.first) :
    (forLoop keyword identifier equals lower toWord upper body).ReadBack := by
  intro tokens written fuel rest stops hfuel
  obtain ⟨fuel, rfl⟩ : ∃ k, fuel = k + 1 := ⟨fuel - 1, by omega⟩
  cases written with
  | @forLoop _ _ _ _ _ _ _ tokens tokens' tokens'' inside inside' inside'' =>
    simp only [List.length_cons, List.length_append] at hfuel
    have stopsStart : lower.StopsBefore toWord.kind :=
      Expr.stopsBefore_of_mem (by simp [reaches])
    have hstart := start _ inside fuel (toWord :: (tokens' ++ (tokens'' ++ rest))) stopsStart
      (by rw [List.length_cons, List.length_append, List.length_append]; omega)
    have stopsStop := stopsBefore_written rest canonical inside'' apart
    have hstop := stop _ inside' fuel (tokens'' ++ rest) stopsStop
      (by rw [List.length_append]; omega)
    have stopsPart : body.StopsBefore (current rest).kind := ⟨stops.ends, stops.no_alternative⟩
    have hpart := part _ inside'' fuel rest stopsPart (by omega)
    simp [statement, repeats, run_expect named, run_expect assigned, hstart, run_expect reaches,
      hstop, hpart]

/-- A block is read. -/
theorem readBack_block {opening closing : Token} {ss : List Stmt}
    (opened : opening.kind = .openCurly)
    (parts : ∀ tokens, AllWrittenAs ss tokens →
      Reads statements 5 tokens ss fun rest => (current rest).kind = .closeCurly)
    (closed : closing.kind = .closeCurly) : (block opening ss closing).ReadBack := by
  intro tokens written fuel rest _ hfuel
  obtain ⟨fuel, rfl⟩ : ∃ k, fuel = k + 1 := ⟨fuel - 1, by omega⟩
  cases written with
  | block inside =>
    simp only [List.length_cons, List.length_append, List.length_nil] at hfuel
    have hrun := parts _ inside fuel (closing :: rest) closed (by rw [List.length_cons]; omega)
    simp [statement, opened, run_expect opened, hrun, run_expect closed]

/-- A statement is stopped by the statements behind it or the end of the block. -/
theorem stopsBefore_statements {ss : List Stmt} {tokens rest : List Token}
    (canonical : AllCanonical ss) (written : AllWrittenAs ss tokens) (apart : s.Precedes ss)
    (closes : (current rest).kind = .closeCurly) :
    s.StopsBefore (current (tokens ++ rest)).kind := by
  cases written with
  | nil =>
    have noElse : (current rest).kind ≠ .elseWord := by rw [closes]; decide
    exact ⟨fun e _ => Expr.stopsBefore_of_mem (by simp [closes]), fun _ => noElse⟩
  | @cons next ss tokens tokens' part parts =>
    cases canonical with
    | cons canonical _ _ =>
      rw [List.append_assoc]
      refine ⟨fun e he => stopsBefore_written _ canonical part (apart e he next rfl), fun _ h => ?_⟩
      have found := startsStmt_written (tokens' ++ rest) canonical part
      rw [h] at found
      cases found

/-- A block without statements ends at once. -/
theorem reads_statements_nil {tokens : List Token} (written : AllWrittenAs [] tokens) :
    Reads statements 5 tokens [] fun rest => (current rest).kind = .closeCurly := by
  intro fuel rest closes hfuel
  obtain ⟨fuel, rfl⟩ : ∃ k, fuel = k + 1 := ⟨fuel - 1, by omega⟩
  cases written
  simp [statements, closes]

/-- The statements of a block are read one after the other, and none of them is
skipped. -/
theorem reads_statements_cons {ss : List Stmt} {tokens : List Token} (canonical : s.Canonical)
    (part : s.ReadBack) (others : AllCanonical ss)
    (parts : ∀ tokens, AllWrittenAs ss tokens →
      Reads statements 5 tokens ss fun rest => (current rest).kind = .closeCurly)
    (apart : s.Precedes ss) (written : AllWrittenAs (s :: ss) tokens) :
    Reads statements 5 tokens (s :: ss) fun rest => (current rest).kind = .closeCurly := by
  intro fuel rest closes hfuel
  obtain ⟨fuel, rfl⟩ : ∃ k, fuel = k + 1 := ⟨fuel - 1, by omega⟩
  cases written with
  | @cons _ _ tokens tokens' inside insides =>
    have positive := inside.length_pos
    rw [List.length_append] at hfuel
    have begins := startsStmt_written (tokens' ++ rest) canonical inside
    have stops := stopsBefore_statements others insides apart closes
    have hfirst := part _ inside fuel (tokens' ++ rest) stops
      (by rw [List.length_append]; omega)
    have hothers := parts _ insides fuel rest closes (by omega)
    have taken : ¬ (tokens' ++ rest).length = (tokens ++ (tokens' ++ rest)).length := by
      simp only [List.length_append]
      omega
    rw [List.append_assoc]
    simp only [statements, run_bind, run_peek]
    split
    next h => rw [h] at begins; cases begins
    next h => rw [h] at begins; cases begins
    next => simp only [run_bind, run_state, hfirst, taken, if_false, hothers, run_pure,
      List.append_nil]

mutual

/-- Canonical statements are read back. -/
theorem Canonical.readBack {s : Stmt} (h : s.Canonical) : s.ReadBack := by
  cases h with
  | block opened parts closed =>
    exact readBack_block opened.kind_eq (fun _ => parts.reads) closed.kind_eq
  | declaration declares named assigned part =>
    exact readBack_declaration (declares.imp Token.Is.kind_eq Token.Is.kind_eq) named.kind_eq
      assigned.kind_eq part.readBack.expression
  | ifThen tests test part apart =>
    exact readBack_ifThen tests.kind_eq test.readBack.expression part part.readBack apart
  | ifElse tests test part apart closed otherwise part' =>
    exact readBack_ifElse tests.kind_eq test.readBack.expression part part.readBack apart closed
      otherwise.kind_eq part'.readBack
  | whileLoop repeats test part apart =>
    exact readBack_whileLoop repeats.kind_eq test.readBack.expression part part.readBack apart
  | forLoop repeats named assigned start reaches stop part apart =>
    exact readBack_forLoop repeats.kind_eq named.kind_eq assigned.kind_eq start.readBack.expression
      reaches.kind_eq stop.readBack.expression part part.readBack apart
  | expression part => exact readBack_expression part

/-- A canonical row of statements is read back up to the end of its block. -/
theorem AllCanonical.reads {ss : List Stmt} (h : AllCanonical ss) {tokens : List Token}
    (written : AllWrittenAs ss tokens) :
    Reads statements 5 tokens ss fun rest => (current rest).kind = .closeCurly := by
  cases h with
  | nil => exact reads_statements_nil written
  | cons part parts apart =>
    exact reads_statements_cons part part.readBack parts (fun _ => parts.reads) apart written

end

end Stmt

/-- A canonical submission is parsed back from its tokens without a report. -/
theorem Script.Canonical.parse_eq {t : Script} {tokens : List Token} (canonical : t.Canonical)
    (written : t.WrittenAs tokens) : parse tokens = (t, []) := by
  cases written with
  | @script statement endOfFile tokens part =>
    have ends : endOfFile.kind = .eof := canonical.ends.kind_eq
    have same : terminated (tokens ++ [endOfFile]) = tokens ++ [endOfFile] := by
      simp [terminated, ends]
    have noElse : endOfFile.kind ≠ .elseWord := by rw [ends]; decide
    have stops : statement.StopsBefore endOfFile.kind :=
      ⟨fun e _ => Expr.stopsBefore_of_mem (by simp [ends]), fun _ => noElse⟩
    have enough : 4 * (tokens.length + [endOfFile].length) + 4 ≤
        4 * (tokens ++ [endOfFile]).length + 4 := by simp
    have hrun := canonical.part.readBack _ part _ [endOfFile] stops enough
    simp only [parse, same, script, run_bind, hrun, run_expect ends, run_pure, List.append_nil]

end Scriptlet.Syntax
