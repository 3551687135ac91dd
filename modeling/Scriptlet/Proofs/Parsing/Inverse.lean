import Scriptlet.Proofs.Parsing.ReadBack
import Scriptlet.Syntax.Source

/-!
# Parsing and writing down are inverse

What is parsed without a report is canonical, and the tokens taken for it are
its own: operators are taken in by what they bind, an expression ends only where
nothing goes on with it, and an alternative is taken by the condition that was
read last. With the reading back of canonical trees this makes parsing and
writing down inverse to each other.
-/

namespace Scriptlet.Syntax

open Reporting

namespace Parser

/-- Tokens up to an end of the source, none of them missing unless it is an end. -/
structure Standing (tokens : List Token) : Prop where
  ends : ∃ last ∈ tokens.getLast?, last.kind = .eof
  present : ∀ token ∈ tokens, token.kind ≠ .eof → token.isMissing = false

/-- A parser that works on some tokens without a report takes the first of them,
leaves tokens up to an end and gives a result that fits both. -/
def TakesAt {α : Type} (tokens : List Token) (m : Parser α)
    (good : α → List Token → List Token → Prop) : Prop :=
  (m.run tokens).diagnostics = [] → ∃ taken, tokens = taken ++ (m.run tokens).state ∧
    Standing (m.run tokens).state ∧ good (m.run tokens).value taken (m.run tokens).state

variable {α β : Type} {tokens : List Token} {m : Parser α} {f : α → Parser β}
  {good : α → List Token → List Token → Prop} {good' : β → List Token → List Token → Prop}

/-- A bare result takes no token. -/
theorem TakesAt.pure {a : α} (standing : Standing tokens) (ha : good a [] tokens) :
    TakesAt tokens (Pure.pure a) good := fun _ => ⟨[], rfl, standing, ha⟩

/-- One parser takes its tokens behind those of another one. -/
theorem TakesAt.bind (h : TakesAt tokens m good)
    (h' : ∀ a taken rest, tokens = taken ++ rest → Standing rest → good a taken rest →
      TakesAt rest (f a) fun b taken' => good' b (taken ++ taken')) :
    TakesAt tokens (m >>= f) good' := by
  intro clean
  rw [run_bind] at clean ⊢
  simp only [List.append_eq_nil_iff] at clean
  obtain ⟨taken, htokens, standing, hgood⟩ := h clean.1
  obtain ⟨taken', hrest, standing', hgood'⟩ := h' _ _ _ htokens standing hgood clean.2
  refine ⟨taken ++ taken', ?_, standing', hgood'⟩
  rw [List.append_assoc, ← hrest, ← htokens]

/-- What a parser takes is taken for what is made of its result. -/
theorem TakesAt.map {g : α → β} (h : TakesAt tokens m good)
    (h' : ∀ a taken rest, tokens = taken ++ rest → good a taken rest → good' (g a) taken rest) :
    TakesAt tokens (m >>= fun a => Pure.pure (g a)) good' := by
  refine h.bind fun a taken rest htokens standing hgood => .pure standing ?_
  rw [List.append_nil]
  exact h' a taken rest htokens hgood

/-- Looking at the next token takes none. -/
theorem TakesAt.peek {f : Kind → Parser β} (h : TakesAt tokens (f (current tokens).kind) good') :
    TakesAt tokens (Parser.peek >>= f) good' := h

/-- Looking at the token behind the next one takes none. -/
theorem TakesAt.peekSecond {f : Kind → Parser β}
    (h : TakesAt tokens (f (current tokens.tail).kind) good') :
    TakesAt tokens (Parser.peekSecond >>= f) good' := h

/-- Looking at all tokens takes none. -/
theorem TakesAt.state {f : List Token → Parser β} (h : TakesAt tokens (f tokens) good') :
    TakesAt tokens (Reporting.state >>= f) good' := h

/-- A token other than an end of the source stands in front of others. -/
theorem Standing.eq_cons (standing : Standing tokens) (inside : (current tokens).kind ≠ .eof) :
    ∃ token rest, tokens = token :: rest ∧ Standing rest ∧ token.Is (current tokens).kind := by
  cases tokens with
  | nil =>
    obtain ⟨last, hlast, -⟩ := standing.ends
    cases hlast
  | cons token rest =>
    refine ⟨token, rest, rfl, ⟨?_, ?_⟩, rfl, standing.present token List.mem_cons_self inside⟩
    · obtain ⟨last, hlast, hkind⟩ := standing.ends
      cases rest with
      | nil =>
        obtain rfl : token = last := by simpa using hlast
        exact absurd hkind inside
      | cons next rest =>
        rw [List.getLast?_cons_cons] at hlast
        exact ⟨last, hlast, hkind⟩
    · exact fun t ht => standing.present t (List.mem_cons_of_mem _ ht)

/-- A token other than an end of the source is taken. -/
theorem TakesAt.advance {f : Token → Parser β} (standing : Standing tokens)
    (inside : (current tokens).kind ≠ .eof)
    (h : ∀ token rest, tokens = token :: rest → Standing rest → token.Is (current tokens).kind →
      TakesAt rest (f token) fun b taken => good' b (token :: taken)) :
    TakesAt tokens (Parser.advance >>= f) good' := by
  obtain ⟨token, rest, rfl, standing', his⟩ := standing.eq_cons inside
  intro clean
  rw [run_bind, run_advance, List.nil_append] at clean
  obtain ⟨taken, hrest, standing', hgood⟩ := h token rest rfl standing' his clean
  rw [run_bind, run_advance]
  exact ⟨token :: taken, congrArg (token :: ·) hrest, standing', hgood⟩

/-- Only a token of the required kind is taken without a report. -/
theorem TakesAt.expect {f : Token → Parser β} {kind : Kind} (standing : Standing tokens)
    (inside : kind ≠ .eof)
    (h : ∀ token rest, tokens = token :: rest → Standing rest → token.Is kind →
      TakesAt rest (f token) fun b taken => good' b (token :: taken)) :
    TakesAt tokens (Parser.expect kind >>= f) good' := by
  by_cases hkind : (current tokens).kind = kind
  · obtain ⟨token, rest, rfl, standing', his⟩ := standing.eq_cons (hkind ▸ inside)
    have hrun : (Parser.expect kind).run (token :: rest) = ⟨token, rest, []⟩ := run_expect hkind
    intro clean
    rw [run_bind, hrun, List.nil_append] at clean
    obtain ⟨taken, hrest, standing', hgood⟩ := h token rest rfl standing' (hkind ▸ his) clean
    rw [run_bind, hrun]
    exact ⟨token :: taken, congrArg (token :: ·) hrest, standing', hgood⟩
  · intro clean
    simp [Parser.expect, hkind] at clean

/-- Where no name stands, missing one is reported. -/
theorem takesAt_absentExpr {good : Expr → List Token → List Token → Prop}
    (h : (current tokens).kind ≠ .identifier) : TakesAt tokens absentExpr good := by
  intro clean
  simp [absentExpr, Parser.expect, h] at clean

end Parser

open Scriptlet.Syntax.Parser

namespace Expr

/-- A canonical expression is taken as the tokens that it is written as, and the
next token makes no call of it. -/
structure Parsed (e : Expr) (taken rest : List Token) : Prop where
  canonical : e.Canonical
  written : e.WrittenAs taken
  ends : e.EndsBefore (current rest).kind

/-- An operand: no operator stands between its parts. -/
structure ParsedOperand (e : Expr) (taken rest : List Token) : Prop
    extends e.Parsed taken rest where
  plain : e.isAssignment = false
  single : e.precedence? = none

/-- An operand with the operators behind it that bind tighter than a bound, as
far as they were taken in. -/
structure ParsedLeft (bound : Nat) (e : Expr) (taken rest : List Token) : Prop extends
    e.Parsed taken rest where
  plain : e.isAssignment = false
  tight : ∀ q ∈ e.precedence?, bound < q
  loose : ∀ p ∈ e.precedence?, ∀ q ∈ (current rest).kind.binaryPrecedence?, q ≤ p

/-- An operation: an operand with all operators behind it that bind tighter than
a bound. -/
structure ParsedOperation (bound : Nat) (e : Expr) (taken rest : List Token) : Prop extends
    e.Parsed taken rest where
  plain : e.isAssignment = false
  tight : ∀ q ∈ e.precedence?, bound < q
  stops : ∀ q ∈ (current rest).kind.binaryPrecedence?, q ≤ bound

/-- A whole expression: no operator is left behind it. -/
structure ParsedWhole (e : Expr) (taken rest : List Token) : Prop extends e.Parsed taken rest where
  stops : (current rest).kind.binaryPrecedence? = none

variable {e : Expr} {bound : Nat} {taken taken' rest : List Token}

/-- An operand is the beginning of an operation. -/
theorem ParsedOperand.left (h : e.ParsedOperand taken rest) : e.ParsedLeft bound taken rest := by
  refine ⟨h.toParsed, h.plain, ?_, ?_⟩
  all_goals
    rw [h.single]
    exact nofun

/-- An operation is complete where no operator behind it binds tighter. -/
theorem ParsedLeft.operation (h : e.ParsedLeft bound taken rest)
    (stops : ∀ q ∈ (current rest).kind.binaryPrecedence?, q ≤ bound) :
    e.ParsedOperation bound taken rest := ⟨h.toParsed, h.plain, h.tight, stops⟩

/-- An operation takes in an operator that binds tighter with the operation
behind it. -/
theorem ParsedLeft.binary {left right : Expr} {operator : Token} {p : Nat}
    (h : left.ParsedLeft bound taken (operator :: (taken' ++ rest)))
    (operates : operator.kind.binaryPrecedence? = some p) (present : operator.isMissing = false)
    (above : bound < p) (part : right.ParsedOperation p taken' rest) :
    (binary left operator right).ParsedLeft bound (taken ++ operator :: taken') rest := by
  have loose : ∀ q ∈ left.precedence?, p ≤ q := fun q hq => h.loose q hq p operates
  refine ⟨⟨?_, .binary h.written part.written, part.ends⟩, rfl, ?_, ?_⟩
  · exact .binary operates present h.canonical part.canonical h.plain part.plain loose part.tight
  · intro q hq
    obtain rfl : p = q := Option.some.inj (operates.symm.trans hq)
    exact above
  · intro q hq
    obtain rfl : p = q := Option.some.inj (operates.symm.trans hq)
    exact part.stops

/-- An operation above no bound is a whole expression. -/
theorem ParsedOperation.whole (h : e.ParsedOperation 0 taken rest) : e.ParsedWhole taken rest := by
  refine ⟨h.toParsed, ?_⟩
  cases hnext : (current rest).kind.binaryPrecedence? with
  | none => rfl
  | some q =>
    have hle := h.stops q hnext
    have hpos := (Kind.binaryPrecedence_lt hnext).1
    omega

/-- No operator stands between the operands of what an operator in front takes. -/
theorem ParsedOperation.single (h : e.ParsedOperation Kind.unaryPrecedence taken rest) :
    e.precedence? = none := by
  cases e with
  | binary left operator right =>
    cases hkind : operator.kind.binaryPrecedence? with
    | none => exact hkind
    | some q =>
      have tight := h.tight q hkind
      have hlt := (Kind.binaryPrecedence_lt hkind).2
      omega
  | _ => rfl

/-- What begins with the token left behind a whole expression may follow it. -/
theorem ParsedWhole.precedes (h : e.ParsedWhole taken rest) : e.Precedes (current rest) := by
  refine ⟨?_, ?_, h.ends⟩
  all_goals
    intro hkind
    have stops := h.stops
    rw [hkind] at stops
    cases stops

end Expr

namespace Parser

mutual

/-- Whole expressions are taken. -/
theorem takesAt_expression (fuel : Nat) {tokens : List Token} (standing : Standing tokens)
    (enough : 4 * tokens.length + 3 ≤ fuel) :
    TakesAt tokens (expression fuel) Expr.ParsedWhole := by
  cases fuel with
  | zero => omega
  | succ fuel =>
    refine TakesAt.peek (TakesAt.peekSecond ?_)
    split
    · refine .expect standing (by decide) ?_
      rintro identifier rest rfl standing named
      refine .expect standing (by decide) ?_
      rintro equals rest rfl standing assigned
      simp only [List.length_cons] at enough
      refine (takesAt_expression fuel standing (by omega)).map fun value taken rest _ h => ?_
      exact ⟨⟨.assignment named assigned h.canonical, .assignment h.written, h.ends⟩, h.stops⟩
    · have taken := takesAt_operation fuel 0 standing (by omega)
      exact fun clean => (taken clean).imp fun _ h => h.imp_right <| .imp_right fun h => h.whole

/-- Operations are taken. -/
theorem takesAt_operation (fuel bound : Nat) {tokens : List Token} (standing : Standing tokens)
    (enough : 4 * tokens.length + 2 ≤ fuel) :
    TakesAt tokens (operation fuel bound) (Expr.ParsedOperation bound) := by
  cases fuel with
  | zero => omega
  | succ fuel =>
    refine (takesAt_operand fuel standing (by omega)).bind ?_
    rintro left taken rest rfl standing h
    rw [List.length_append] at enough
    exact takesAt_extend fuel bound h.left standing (by omega)

/-- The operators that bind tighter than the bound are taken into the operation. -/
theorem takesAt_extend (fuel bound : Nat) {left : Expr} {before tokens : List Token}
    (h : left.ParsedLeft bound before tokens) (standing : Standing tokens)
    (enough : 4 * tokens.length + 1 ≤ fuel) :
    TakesAt tokens (extend fuel bound left)
      fun e taken => e.ParsedOperation bound (before ++ taken) := by
  cases fuel with
  | zero => omega
  | succ fuel =>
    refine TakesAt.peek ?_
    split
    next p operates =>
      split
      next above =>
        have inside : (current tokens).kind ≠ .eof := by
          intro hkind
          rw [hkind] at operates
          cases operates
        refine .advance standing inside ?_
        rintro operator rest rfl standing his
        rw [List.length_cons] at enough
        refine (takesAt_operation fuel p standing (by omega)).bind ?_
        rintro right taken rest rfl standing part
        rw [List.length_append] at enough
        have extended := h.binary operates his.present above part
        have others := takesAt_extend fuel bound extended standing (by omega)
        simpa only [List.append_assoc, List.cons_append] using others
      next above =>
        refine .pure standing ?_
        rw [List.append_nil]
        refine h.operation fun q hq => ?_
        obtain rfl : p = q := Option.some.inj (operates.symm.trans hq)
        exact Nat.not_lt.1 above
    next operates =>
      refine .pure standing ?_
      rw [List.append_nil]
      refine h.operation ?_
      rw [operates]
      exact nofun

/-- Operands are taken. -/
theorem takesAt_operand (fuel : Nat) {tokens : List Token} (standing : Standing tokens)
    (enough : 4 * tokens.length + 1 ≤ fuel) :
    TakesAt tokens (operand fuel) Expr.ParsedOperand := by
  cases fuel with
  | zero => omega
  | succ fuel =>
    refine TakesAt.peek ?_
    have literal (value : (current tokens).kind.isLiteral) :
        TakesAt tokens (do return Expr.literal (← advance)) Expr.ParsedOperand := by
      refine .advance standing (fun hkind => by rw [hkind] at value; cases value) ?_
      rintro token rest rfl standing his
      refine .pure standing
        ⟨⟨.literal value his.present, .literal token, fun hname => ?_⟩, rfl, rfl⟩
      rw [Expr.last] at hname
      rw [current_cons, hname] at value
      cases value
    have prefixed (operates : (current tokens).kind.isUnaryOperator) :
        TakesAt tokens (do
          let operator ← advance
          let operand ← operation fuel Kind.unaryPrecedence
          return Expr.unary operator operand) Expr.ParsedOperand := by
      refine .advance standing (fun hkind => by rw [hkind] at operates; cases operates) ?_
      rintro operator rest rfl standing his
      rw [List.length_cons] at enough
      refine (takesAt_operation fuel _ standing (by omega)).map fun operand taken rest _ h => ?_
      exact ⟨⟨.unary operates his.present h.canonical h.single h.plain, .unary h.written, h.ends⟩,
        rfl, rfl⟩
    split
    next h => exact literal (by rw [h]; rfl)
    next h => exact literal (by rw [h]; rfl)
    next h => exact literal (by rw [h]; rfl)
    next h => exact literal (by rw [h]; rfl)
    next h =>
      refine TakesAt.peekSecond ?_
      split
      · refine .expect standing (by decide) ?_
        rintro identifier rest rfl standing named
        refine .expect standing (by decide) ?_
        rintro opening rest rfl standing opened
        simp only [List.length_cons] at enough
        refine (takesAt_arguments fuel standing (by omega)).bind ?_
        rintro arguments taken rest rfl standing ⟨canonical, written⟩
        refine .expect standing (by decide) ?_
        rintro closing rest rfl standing closed
        refine .pure standing ⟨⟨.call named opened canonical closed, .call written, ?_⟩, rfl, rfl⟩
        intro hname
        rw [Expr.last, closed.kind_eq] at hname
        cases hname
      next apart =>
        refine .advance standing (by simp [h]) ?_
        rintro identifier rest rfl standing his
        have named : identifier.Is .identifier := h ▸ his
        exact .pure standing ⟨⟨.name named, .name identifier, fun _ => apart⟩, rfl, rfl⟩
    next h =>
      refine .advance standing (by simp [h]) ?_
      rintro opening rest rfl standing his
      rw [List.length_cons] at enough
      refine (takesAt_expression fuel standing (by omega)).bind ?_
      rintro inner taken rest rfl standing part
      refine .expect standing (by decide) ?_
      rintro closing rest rfl standing closed
      have opened : opening.Is .openParen := h ▸ his
      refine .pure standing ⟨⟨.grouped opened part.canonical closed, .grouped part.written, ?_⟩,
        rfl, rfl⟩
      intro hname
      rw [Expr.last, closed.kind_eq] at hname
      cases hname
    next h => exact prefixed (by rw [h]; rfl)
    next h => exact prefixed (by rw [h]; rfl)
    next h => exact prefixed (by rw [h]; rfl)
    next h => exact prefixed (by rw [h]; rfl)
    next => exact takesAt_absentExpr (by assumption)

/-- Arguments are taken. -/
theorem takesAt_arguments (fuel : Nat) {tokens : List Token} (standing : Standing tokens)
    (enough : 4 * tokens.length + 4 ≤ fuel) :
    TakesAt tokens (arguments fuel) fun es taken _ =>
      (∀ e ∈ es, e.Canonical) ∧ Expr.AllWrittenAs es taken := by
  cases fuel with
  | zero => omega
  | succ fuel =>
    refine TakesAt.peek ?_
    split
    · exact .pure standing ⟨nofun, .nil⟩
    · exact .pure standing ⟨nofun, .nil⟩
    · refine (takesAt_expression fuel standing (by omega)).bind ?_
      rintro first taken rest rfl standing h
      have positive := h.written.length_pos
      rw [List.length_append] at enough
      have further := takesAt_furtherArguments fuel standing (by omega)
      refine further.map fun others taken' rest _ h' => ?_
      exact ⟨List.forall_mem_cons.2 ⟨h.canonical, h'.1⟩, .cons h.written h'.2⟩

/-- Further arguments are taken. -/
theorem takesAt_furtherArguments (fuel : Nat) {tokens : List Token} (standing : Standing tokens)
    (enough : 4 * tokens.length + 1 ≤ fuel) :
    TakesAt tokens (furtherArguments fuel) fun es taken _ =>
      (∀ e ∈ es, e.Canonical) ∧ Expr.FurtherWrittenAs es taken := by
  cases fuel with
  | zero => omega
  | succ fuel =>
    refine TakesAt.peek ?_
    split
    next hcomma =>
      refine .advance standing (by simp [hcomma]) ?_
      rintro comma rest rfl standing _
      rw [List.length_cons] at enough
      refine (takesAt_expression fuel standing (by omega)).bind ?_
      rintro next taken rest rfl standing h
      rw [List.length_append] at enough
      have further := takesAt_furtherArguments fuel standing (by omega)
      refine further.map fun others taken' rest _ h' => ?_
      exact ⟨List.forall_mem_cons.2 ⟨h.canonical, h'.1⟩, .cons hcomma h.written h'.2⟩
    · exact .pure standing ⟨nofun, .nil⟩

end

end Parser

namespace Stmt

/-- A canonical statement is taken as the tokens that it is written as, and the
next token goes on neither with the expression nor with the condition that ends
there. -/
structure Parsed (s : Stmt) (taken rest : List Token) : Prop where
  canonical : s.Canonical
  written : s.WrittenAs taken
  ends : ∀ e ∈ s.ending?, e.Precedes (current rest)
  no_alternative : s.endsOpen = true → (current rest).kind ≠ .elseWord

variable {s : Stmt} {e : Expr} {taken rest : List Token}

/-- An expression is apart from the statement that was taken behind it. -/
theorem Parsed.apart {before : List Token} (h : s.Parsed taken rest)
    (h' : e.ParsedWhole before (taken ++ rest)) : e.Precedes s.first := by
  have apart := h'.precedes
  rwa [h.written.current_eq] at apart

/-- A statement is apart from the statements that were taken behind it. -/
theorem Parsed.precedes {ss : List Stmt} {before : List Token}
    (h : s.Parsed before (taken ++ rest)) (written : AllWrittenAs ss taken) : s.Precedes ss := by
  intro e he next hnext
  cases written with
  | nil => cases hnext
  | cons part parts =>
    obtain rfl := Option.some.inj hnext
    have apart := h.ends e he
    rwa [List.append_assoc, part.current_eq] at apart

end Stmt

namespace Parser

mutual

/-- Statements are taken. -/
theorem takesAt_statement (fuel : Nat) {tokens : List Token} (standing : Standing tokens)
    (enough : 4 * tokens.length + 4 ≤ fuel) : TakesAt tokens (statement fuel) Stmt.Parsed := by
  cases fuel with
  | zero => omega
  | succ fuel =>
    refine TakesAt.peek ?_
    have declaration
        (declares : (current tokens).kind = .varWord ∨ (current tokens).kind = .letWord) :
        TakesAt tokens (do
          let keyword ← advance
          let identifier ← expect .identifier
          let equals ← expect .assignment
          let initializer ← expression fuel
          return Stmt.declaration keyword identifier equals initializer) Stmt.Parsed := by
      refine .advance standing (by rcases declares with h | h <;> simp [h]) ?_
      rintro keyword rest rfl standing his
      refine .expect standing (by decide) ?_
      rintro identifier rest rfl standing named
      refine .expect standing (by decide) ?_
      rintro equals rest rfl standing assigned
      simp only [List.length_cons] at enough
      refine (takesAt_expression fuel standing (by omega)).map fun initializer taken rest _ h => ?_
      have keywords : keyword.Is .varWord ∨ keyword.Is .letWord := by
        rcases declares with hkind | hkind
        · exact .inl (hkind ▸ his)
        · exact .inr (hkind ▸ his)
      refine ⟨.declaration keywords named assigned h.canonical, .declaration h.written, ?_, nofun⟩
      rintro e ⟨⟩
      exact h.precedes
    split
    next h =>
      refine .expect standing (by decide) ?_
      rintro opening rest rfl standing opened
      rw [List.length_cons] at enough
      refine (takesAt_statements fuel standing (by omega)).bind ?_
      rintro statements taken rest rfl standing ⟨canonical, written⟩
      refine .expect standing (by decide) ?_
      rintro closing rest rfl standing closed
      exact .pure standing ⟨.block opened canonical closed, .block written, nofun, nofun⟩
    next h => exact declaration (.inl h)
    next h => exact declaration (.inr h)
    next h =>
      refine .advance standing (by simp [h]) ?_
      rintro keyword rest rfl standing his
      have tests : keyword.Is .ifWord := h ▸ his
      rw [List.length_cons] at enough
      refine (takesAt_expression fuel standing (by omega)).bind ?_
      rintro condition taken rest rfl standing test
      rw [List.length_append] at enough
      refine (takesAt_statement fuel standing (by omega)).bind ?_
      rintro consequence taken' rest rfl standing part
      rw [List.length_append] at enough
      have apart := part.apart test
      refine TakesAt.peek ?_
      split
      next helse =>
        refine .advance standing (by simp [helse]) ?_
        rintro elseWord rest rfl standing his'
        have otherwise : elseWord.Is .elseWord := helse ▸ his'
        rw [List.length_cons] at enough
        have closed : consequence.endsOpen = false := by
          cases hopen : consequence.endsOpen with
          | false => rfl
          | true => exact absurd helse (part.no_alternative hopen)
        have other := takesAt_statement fuel standing (by omega)
        refine other.map fun alternative taken rest _ h' => ?_
        exact ⟨.ifElse tests test.canonical part.canonical apart closed otherwise h'.canonical,
          .ifElse test.written part.written h'.written, h'.ends, h'.no_alternative⟩
      next helse =>
        refine .pure standing ?_
        rw [List.append_nil]
        exact ⟨.ifThen tests test.canonical part.canonical apart,
          .ifThen test.written part.written, part.ends, fun _ => helse⟩
    next h =>
      refine .advance standing (by simp [h]) ?_
      rintro keyword rest rfl standing his
      have repeats : keyword.Is .whileWord := h ▸ his
      rw [List.length_cons] at enough
      refine (takesAt_expression fuel standing (by omega)).bind ?_
      rintro condition taken rest rfl standing test
      rw [List.length_append] at enough
      refine (takesAt_statement fuel standing (by omega)).map ?_
      rintro body taken' rest rfl part
      exact ⟨.whileLoop repeats test.canonical part.canonical (part.apart test),
        .whileLoop test.written part.written, part.ends, part.no_alternative⟩
    next h =>
      refine .advance standing (by simp [h]) ?_
      rintro keyword rest rfl standing his
      have repeats : keyword.Is .forWord := h ▸ his
      refine .expect standing (by decide) ?_
      rintro identifier rest rfl standing named
      refine .expect standing (by decide) ?_
      rintro equals rest rfl standing assigned
      simp only [List.length_cons] at enough
      refine (takesAt_expression fuel standing (by omega)).bind ?_
      rintro lower taken rest rfl standing start
      rw [List.length_append] at enough
      refine .expect standing (by decide) ?_
      rintro toWord rest rfl standing reaches
      rw [List.length_cons] at enough
      refine (takesAt_expression fuel standing (by omega)).bind ?_
      rintro upper taken' rest rfl standing stop
      rw [List.length_append] at enough
      refine (takesAt_statement fuel standing (by omega)).map ?_
      rintro body taken'' rest rfl part
      exact ⟨.forLoop repeats named assigned start.canonical reaches stop.canonical part.canonical
        (part.apart stop), .forLoop start.written stop.written part.written, part.ends,
        part.no_alternative⟩
    next =>
      refine (takesAt_expression fuel standing (by omega)).map fun inner taken rest _ h => ?_
      refine ⟨.expression h.canonical, .expression h.written, ?_, nofun⟩
      rintro e ⟨⟩
      exact h.precedes

/-- The statements of a block are taken. -/
theorem takesAt_statements (fuel : Nat) {tokens : List Token} (standing : Standing tokens)
    (enough : 4 * tokens.length + 5 ≤ fuel) :
    TakesAt tokens (statements fuel) fun ss taken _ =>
      Stmt.AllCanonical ss ∧ Stmt.AllWrittenAs ss taken := by
  cases fuel with
  | zero => omega
  | succ fuel =>
    refine TakesAt.peek ?_
    split
    · exact .pure standing ⟨.nil, .nil⟩
    · exact .pure standing ⟨.nil, .nil⟩
    · refine TakesAt.state ?_
      refine (takesAt_statement fuel standing (by omega)).bind ?_
      rintro first taken rest rfl standing part
      have positive := part.written.length_pos
      rw [List.length_append] at enough
      refine TakesAt.state ?_
      -- A statement that was taken has a token, so the next one is not skipped.
      have moved : ¬ rest.length = (taken ++ rest).length := by
        rw [List.length_append]
        omega
      rw [if_neg moved]
      refine (takesAt_statements fuel standing (by omega)).map ?_
      rintro others taken' rest rfl ⟨canonical, written⟩
      exact ⟨.cons part.canonical canonical (part.precedes written), .cons part.written written⟩

end

/-- A submission is taken up to the first end, and nothing behind it is looked at. -/
theorem script_clean {fuel : Nat} {tokens : List Token} (standing : Standing tokens)
    (enough : 4 * tokens.length + 4 ≤ fuel) (clean : ((script fuel).run tokens).diagnostics = []) :
    ((script fuel).run tokens).value.statement.Canonical ∧
      ((script fuel).run tokens).value.endOfFile.kind = .eof ∧
      ∃ written ignored, tokens = written ++ ignored ∧
        ((script fuel).run tokens).value.WrittenAs written := by
  simp only [script, run_bind, run_pure, List.append_eq_nil_iff] at clean ⊢
  obtain ⟨taken, htokens, standing', part⟩ := takesAt_statement fuel standing enough clean.1
  generalize (statement fuel).run tokens = result at *
  obtain ⟨value, rest, diagnostics⟩ := result
  cases rest with
  | nil =>
    obtain ⟨last, hlast, -⟩ := standing'.ends
    cases hlast
  | cons endOfFile ignored =>
    have ends : endOfFile.kind = .eof := by
      by_cases h : endOfFile.kind = .eof
      · exact h
      · simp [expect, h] at clean
    simp only [run_expect ends]
    refine ⟨part.canonical, ends, taken ++ [endOfFile], ignored, ?_, .script part.written⟩
    rw [htokens, List.append_assoc, List.singleton_append]

end Parser

/-- With an end behind them, tokens of which none is missing stand up to an end. -/
theorem standing_terminated {tokens : List Token}
    (present : ∀ token ∈ tokens, token.isMissing = false) :
    Parser.Standing (terminated tokens) := by
  rw [terminated]
  split
  next => exact ⟨⟨_, rfl, rfl⟩, by simp [Token.missing]⟩
  next last hlast =>
    split
    next hkind => exact ⟨⟨last, hlast, hkind⟩, fun token htoken _ => present token htoken⟩
    next hkind =>
      refine ⟨⟨_, List.getLast?_concat, rfl⟩, fun token htoken inside => ?_⟩
      rw [List.mem_append, List.mem_singleton] at htoken
      rcases htoken with htoken | rfl
      · exact present token htoken
      · exact absurd rfl inside

/-- The tokens of a whole text: none of them is missing, and the last one is the
only end. -/
inductive Whole : List Token → Prop where
  | ended {tokens : List Token} {endOfFile : Token} (ends : endOfFile.Is .eof)
      (present : ∀ token ∈ tokens, token.isMissing = false)
      (inside : ∀ token ∈ tokens, token.kind ≠ .eof) : Whole (tokens ++ [endOfFile])

/-- Tokens of a whole text that begin with an end behind others are no more than
those. -/
theorem Whole.eq_of_append {tokens written ignored : List Token} {endOfFile : Token}
    (whole : Whole tokens) (ends : endOfFile.kind = .eof)
    (h : tokens = written ++ endOfFile :: ignored) :
    ignored = [] ∧ endOfFile.isMissing = false := by
  cases whole with
  | ended ends' present inside =>
    rcases List.eq_nil_or_concat ignored with rfl | ⟨front, last, rfl⟩
    · have same := List.append_inj' h rfl
      obtain rfl := List.singleton_inj.1 same.2
      exact ⟨rfl, ends'.present⟩
    · rw [List.concat_eq_append, ← List.cons_append, ← List.append_assoc] at h
      have same := (List.append_inj' h rfl).1
      have mem : endOfFile ∈ written ++ endOfFile :: front := by simp
      rw [← same] at mem
      exact absurd ends (inside endOfFile mem)

/-- What is parsed without a report is canonical. It is written as the tokens up
to the first end, and as all of them if they are those of a whole text. -/
theorem canonical_of_parse {t : Script} {tokens : List Token}
    (present : ∀ token ∈ tokens, token.isMissing = false) (clean : parse tokens = (t, [])) :
    t.statement.Canonical ∧ t.endOfFile.kind = .eof ∧
      ∃ written ignored, terminated tokens = written ++ ignored ∧ t.WrittenAs written := by
  obtain rfl : (parse tokens).1 = t := congrArg Prod.fst clean
  exact Parser.script_clean (standing_terminated present) (Nat.le_refl _) (congrArg Prod.snd clean)

/-- The tokens of a whole text already end in an end. -/
theorem Whole.terminated_eq {tokens : List Token} (whole : Whole tokens) :
    terminated tokens = tokens := by
  cases whole with
  | ended ends => simp [terminated, ends.kind_eq]

/-- None of the tokens of a whole text is missing. -/
theorem Whole.present {tokens : List Token} (whole : Whole tokens) :
    ∀ token ∈ tokens, token.isMissing = false := by
  cases whole with
  | ended ends present _ =>
    intro token htoken
    rw [List.mem_append, List.mem_singleton] at htoken
    rcases htoken with htoken | rfl
    · exact present token htoken
    · exact ends.present

/-- Parsing and writing down are inverse. A canonical tree is parsed back from
the tokens that it is written as, without a report. Whatever tokens are parsed
without a report, none of them missing, the tree is canonical up to its end and
written as the tokens up to the first end; if they are the tokens of a whole
text, the tree is canonical and written as all of them. -/
theorem parse_inverse :
    (∀ (t : Script) (tokens : List Token), t.Canonical → t.WrittenAs tokens →
      parse tokens = (t, [])) ∧
    (∀ (t : Script) (tokens : List Token), (∀ token ∈ tokens, token.isMissing = false) →
      parse tokens = (t, []) → t.statement.Canonical ∧ t.endOfFile.kind = .eof ∧
        ∃ written ignored, terminated tokens = written ++ ignored ∧ t.WrittenAs written) ∧
    ∀ (t : Script) (tokens : List Token), Whole tokens → parse tokens = (t, []) →
      t.Canonical ∧ t.WrittenAs tokens := by
  refine ⟨fun t tokens => Script.Canonical.parse_eq, fun t tokens => canonical_of_parse, ?_⟩
  intro t tokens whole clean
  obtain ⟨canonical, ends, written, ignored, htokens, part⟩ :=
    canonical_of_parse whole.present clean
  rw [whole.terminated_eq] at htokens
  cases part with
  | @script statement endOfFile tokens' inside =>
    have split : tokens = tokens' ++ endOfFile :: ignored := by
      rw [htokens, List.append_assoc, List.singleton_append]
    obtain ⟨rfl, present⟩ := whole.eq_of_append ends split
    refine ⟨⟨canonical, ends, present⟩, ?_⟩
    rw [split]
    exact .script inside

/-- Operators of both directions of grouping, a call behind an expression and an
alternative behind two conditions. -/
def nestingSample : List Token :=
  (tokenize "\x7b if a b = 1 - 2 - 3 * (4 + c) if d if e print(-f, g) else h \x7d").tokens

/-- The tokens are those of a whole text. They are parsed into a canonical tree
that is written as them, and parsed back from them. -/
theorem parse_inverse_nestingSample :
    Whole nestingSample ∧ (parse nestingSample).1.Canonical ∧
      (parse nestingSample).1.WrittenAs nestingSample ∧
      parse nestingSample = ((parse nestingSample).1, []) := by
  have same : nestingSample = nestingSample.dropLast ++ [nestingSample.getLastD default] := rfl
  have whole : Whole nestingSample := by
    rw [same]
    exact .ended ⟨rfl, rfl⟩ (by decide) (by decide)
  have clean : parse nestingSample = ((parse nestingSample).1, []) := Prod.ext rfl rfl
  obtain ⟨canonical, written⟩ := parse_inverse.2.2 _ nestingSample whole clean
  exact ⟨whole, canonical, written, parse_inverse.1 _ nestingSample canonical written⟩

end Scriptlet.Syntax
