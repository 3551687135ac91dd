import Scriptlet.Proofs.Recovery.Resuming

/-!
# Every part of the grammar goes on behind the end

Expressions and statements are put together from names, required tokens and each
other, so their parsers resume each other by the rules of sequences. At the end of
the source an expression or a statement misses a name, and where it breaks off
inside, it misses in addition what the constructs around the end still require.
-/

namespace Scriptlet.Syntax

open Reporting

namespace Parser

variable {last : Token} {sequel sequel' : List Kind} {tokens front : List Token}
  {ds : List Diagnostic} {kinds : List Kind} {most : Nat}

/-! ### Names in front of what goes on with nothing -/

section Names

variable {x : Token} {others : List Token} {fuel bound : Nat}

/-- What goes on with no expression is no operator. -/
theorem extend_stopping (left : Expr) (fuel bound : Nat)
    (stops : (current tokens).kind ∈ Kind.stopping) :
    (extend fuel bound left).run tokens = ⟨left, tokens, []⟩ := by
  have kinds : ∀ k ∈ Kind.stopping, k.binaryPrecedence? = none := by decide
  have operatorless := kinds _ stops
  cases fuel with
  | zero => rfl
  | succ fuel => simp [extend, operatorless]

/-- A name in front of what goes on with nothing is an operand. -/
theorem operand_name (named : x.kind = .identifier)
    (stops : (current others).kind ∈ Kind.stopping) :
    (operand (fuel + 1)).run (x :: others) = ⟨.name x, others, []⟩ := by
  have kinds : ∀ k ∈ Kind.stopping, k ≠ .openParen := by decide
  have callless := kinds _ stops
  simp [operand, named, callless]

/-- A name in front of what goes on with nothing is an operation. -/
theorem operation_name (named : x.kind = .identifier)
    (stops : (current others).kind ∈ Kind.stopping) :
    (operation (fuel + 2) bound).run (x :: others) = ⟨.name x, others, []⟩ := by
  rw [operation, run_bind, operand_name named stops, extend_stopping _ _ _ stops]
  rfl

/-- A name in front of what goes on with nothing is an expression. -/
theorem expression_name (named : x.kind = .identifier)
    (stops : (current others).kind ∈ Kind.stopping) :
    (expression (fuel + 3)).run (x :: others) = ⟨.name x, others, []⟩ := by
  have kinds : ∀ k ∈ Kind.stopping, k ≠ .assignment := by decide
  have assignless := kinds _ stops
  have whole : (operation (fuel + 2) 0).run (x :: others) = ⟨.name x, others, []⟩ :=
    operation_name named stops
  simp [expression, named, assignless, whole]

/-- What does not begin with a name is no assignment. -/
theorem expression_operation (unnamed : x.kind ≠ .identifier) :
    (expression (fuel + 1)).run (x :: others) = (operation fuel 0).run (x :: others) := by
  simp [expression, unnamed]

end Names

/-- A name that is missed is missed alike. -/
theorem resumable_absentExpr (ends : last.kind = .eof) :
    Resumable last sequel [.identifier] most absentExpr absentExpr :=
  (resumable_expect ends (by decide)).map Expr.name Expr.name

/-! ### Expressions

Every chain of nested calls takes a token at least once in four, so with four calls
for each shared token and some more neither parser stops in front of their end. -/

mutual

/-- Expressions resume each other. -/
theorem resumable_expression (ends : last.kind = .eof) (fuel fuel' most : Nat)
    (enough : 4 * (most + 1) + 3 ≤ fuel) (enough' : 4 * (most + 1) + 3 ≤ fuel') :
    Resumable last Kind.stopping [.identifier] most (expression fuel) (expression fuel') := by
  obtain ⟨fuel, rfl⟩ := Nat.exists_eq_add_of_le' (show 3 ≤ fuel by omega)
  obtain ⟨fuel', rfl⟩ := Nat.exists_eq_add_of_le' (show 3 ≤ fuel' by omega)
  have others := resumable_operation ends (fuel + 2) (fuel' + 2) 0 most (by omega) (by omega)
  have stops : last.kind ∈ Kind.stopping := by rw [ends]; decide
  refine ⟨others.waits.congr_nil ?_ ?_, fun tokens nonempty few inside => ?_⟩
  · simp [expression, current, ends]
  · intro filled others fills follows
    obtain ⟨x, rfl, named⟩ := List.map_eq_singleton_iff.1 fills
    rw [List.singleton_append, expression_name named follows, operation_name named follows]
  · obtain ⟨t, tokens, rfl⟩ := List.exists_cons_of_ne_nil nonempty
    rw [List.length_cons] at few
    by_cases named : t.kind = .identifier
    · cases tokens with
      | nil =>
        -- what stands behind the name is not shared, so only what cannot go on with it follows
        exact .atEnd (atEnd_of_silent (expression_name named stops) fun others follows =>
          ⟨_, expression_name named follows⟩)
      | cons u tokens =>
        refine .peek (.peekSecond (.ite (fun assigns => ?_) fun _ => ?_))
        · refine .expect named (.expect assigns.2 ?_)
          simp only [List.length_cons] at few
          have part := resumable_expression ends (fuel + 2) (fuel' + 2) tokens.length
            (by omega) (by omega)
          have whole := part.map (Expr.assignment t u) (Expr.assignment t u)
          exact whole.resumes_of_length_le (Nat.le_refl _)
            fun v hv => inside v (by simp [hv])
        · exact others.resumes _ nonempty few inside
    · refine (others.resumes _ nonempty few inside).congr ?_ ?_
      · exact expression_operation named
      · exact fun others => expression_operation named

/-- Operations resume each other. -/
theorem resumable_operation (ends : last.kind = .eof) (fuel fuel' bound most : Nat)
    (enough : 4 * (most + 1) + 2 ≤ fuel) (enough' : 4 * (most + 1) + 2 ≤ fuel') :
    Resumable last Kind.stopping [.identifier] most (operation fuel bound)
      (operation fuel' bound) := by
  cases fuel with
  | zero => omega
  | succ fuel =>
    cases fuel' with
    | zero => omega
    | succ fuel' =>
      have part := resumable_operand ends fuel fuel' most (by omega) (by omega)
      exact part.bind (fun left left' => resumable_extend ends fuel fuel' bound most left left'
        (by omega) (by omega)) (fun _ h => h)

/-- Operands resume each other with the operators behind them. -/
theorem resumable_extend (ends : last.kind = .eof) (fuel fuel' bound most : Nat) (left left' : Expr)
    (enough : 4 * (most + 1) + 1 ≤ fuel) (enough' : 4 * (most + 1) + 1 ≤ fuel') :
    Resumable last Kind.stopping [] most (extend fuel bound left) (extend fuel' bound left') := by
  have stops : last.kind ∈ Kind.stopping := by rw [ends]; decide
  refine ⟨?_, fun tokens nonempty few inside => ?_⟩
  · exact atEnd_of_silent (extend_stopping left fuel bound stops) fun others follows =>
      ⟨_, extend_stopping left' fuel' bound follows⟩
  · obtain ⟨fuel, rfl⟩ := Nat.exists_eq_add_of_le' (show 1 ≤ fuel by omega)
    obtain ⟨fuel', rfl⟩ := Nat.exists_eq_add_of_le' (show 1 ≤ fuel' by omega)
    obtain ⟨t, tokens, rfl⟩ := List.exists_cons_of_ne_nil nonempty
    rw [List.length_cons] at few
    refine .peek ?_
    cases t.kind.binaryPrecedence? with
    | none => exact resumes_pure left left' _
    | some precedence =>
      refine .ite (fun _ => .advance ?_) fun _ => resumes_pure left left' _
      have part := resumable_operation ends fuel fuel' precedence tokens.length
        (by omega) (by omega)
      have whole := part.bind (fun right right' => resumable_extend ends fuel fuel' bound
        tokens.length (.binary left t right) (.binary left' t right') (by omega) (by omega))
        fun _ h => h
      exact whole.resumes_of_length_le (Nat.le_refl _) fun u hu =>
        inside u (List.mem_cons_of_mem t hu)

/-- Operands resume each other. -/
theorem resumable_operand (ends : last.kind = .eof) (fuel fuel' most : Nat)
    (enough : 4 * (most + 1) + 1 ≤ fuel) (enough' : 4 * (most + 1) + 1 ≤ fuel') :
    Resumable last Kind.stopping [.identifier] most (operand fuel) (operand fuel') := by
  obtain ⟨fuel, rfl⟩ := Nat.exists_eq_add_of_le' (show 1 ≤ fuel by omega)
  obtain ⟨fuel', rfl⟩ := Nat.exists_eq_add_of_le' (show 1 ≤ fuel' by omega)
  have stops : last.kind ∈ Kind.stopping := by rw [ends]; decide
  have absent : Resumable last Kind.stopping [.identifier] most absentExpr absentExpr :=
    resumable_absentExpr ends
  refine ⟨absent.waits.congr_nil ?_ ?_, fun tokens nonempty few inside => ?_⟩
  · simp [operand, current, ends]
  · intro filled others fills follows
    obtain ⟨x, rfl, named⟩ := List.map_eq_singleton_iff.1 fills
    rw [List.singleton_append, operand_name named follows]
    simp [absentExpr, run_expect named]
  · obtain ⟨t, tokens, rfl⟩ := List.exists_cons_of_ne_nil nonempty
    have insideTail : ∀ u ∈ tokens, u.kind ≠ .eof := fun u hu =>
      inside u (List.mem_cons_of_mem t hu)
    have literal : Resumes last Kind.stopping (t :: tokens) (do return Expr.literal (← advance))
        (do return Expr.literal (← advance)) :=
      .advance (resumes_pure _ _ tokens)
    have prefixed : Resumes last Kind.stopping (t :: tokens)
        (do
          let operator ← advance
          let operand ← operation fuel Kind.unaryPrecedence
          return Expr.unary operator operand)
        (do
          let operator ← advance
          let operand ← operation fuel' Kind.unaryPrecedence
          return Expr.unary operator operand) := by
      rw [List.length_cons] at few
      have part := resumable_operation ends fuel fuel' Kind.unaryPrecedence tokens.length
        (by omega) (by omega)
      have whole := part.map (Expr.unary t) (Expr.unary t)
      exact .advance (whole.resumes_of_length_le (Nat.le_refl _) insideTail)
    by_cases alone : t.kind = .identifier ∧ tokens = []
    · obtain ⟨named, rfl⟩ := alone
      exact .atEnd (atEnd_of_silent (operand_name named stops) fun others follows =>
        ⟨_, operand_name named follows⟩)
    · refine .peek ?_
      cases hkind : t.kind with
      | number | string | trueWord | falseWord => exact literal
      | plus | dash | not | tilde => exact prefixed
      | identifier =>
        cases tokens with
        | nil => exact absurd ⟨hkind, rfl⟩ alone
        | cons u tokens =>
          refine .peekSecond (.ite (fun opens => ?_) fun _ => .advance (resumes_pure _ _ _))
          refine .expect hkind (.expect opens ?_)
          simp only [List.length_cons] at few
          have parts := resumable_arguments ends fuel fuel' tokens.length (by omega) (by omega)
          have closes : Resumable last Kind.stopping [.closeParen] tokens.length
              (expect .closeParen) (expect .closeParen) := resumable_expect ends (by decide)
          have whole := parts.bind (fun arguments arguments' =>
            closes.map (Expr.call t u arguments) (Expr.call t u arguments')) (by decide)
          exact whole.resumes_of_length_le (Nat.le_refl _) fun v hv =>
            insideTail v (List.mem_cons_of_mem u hv)
      | openParen =>
        rw [List.length_cons] at few
        have part := resumable_expression ends fuel fuel' tokens.length (by omega) (by omega)
        have closes : Resumable last Kind.stopping [.closeParen] tokens.length
            (expect .closeParen) (expect .closeParen) := resumable_expect ends (by decide)
        have whole := part.bind (fun inner inner' =>
          closes.map (Expr.grouped t inner) (Expr.grouped t inner')) (by decide)
        exact .advance (whole.resumes_of_length_le (Nat.le_refl _) insideTail)
      | eof => exact absurd hkind (inside t List.mem_cons_self)
      | _ => exact absent.resumes _ nonempty few inside

/-- Arguments resume each other where they are closed. -/
theorem resumable_arguments (ends : last.kind = .eof) (fuel fuel' most : Nat)
    (enough : 4 * (most + 1) + 4 ≤ fuel) (enough' : 4 * (most + 1) + 4 ≤ fuel') :
    Resumable last [.closeParen, .eof] [] most (arguments fuel) (arguments fuel') := by
  obtain ⟨fuel, rfl⟩ := Nat.exists_eq_add_of_le' (show 1 ≤ fuel by omega)
  obtain ⟨fuel', rfl⟩ := Nat.exists_eq_add_of_le' (show 1 ≤ fuel' by omega)
  have stays : (arguments (fuel + 1)).run [last] = ⟨[], [last], []⟩ := by
    simp [arguments, current, ends]
  refine ⟨atEnd_of_silent stays fun others follows => ⟨[], ?_⟩, ?_⟩
  · simp only [List.mem_cons, List.not_mem_nil, or_false] at follows
    rcases follows with hkind | hkind <;> simp [arguments, hkind]
  · intro tokens nonempty few inside
    obtain ⟨t, tokens, rfl⟩ := List.exists_cons_of_ne_nil nonempty
    have part := resumable_expression ends fuel fuel' most (by omega) (by omega)
    have others := resumable_furtherArguments ends fuel fuel' most (by omega) (by omega)
    have row := part.bind (fun first first' =>
      others.map (first :: ·) (first' :: ·)) fun _ h => h
    have whole := row.resumes (t :: tokens) nonempty few inside
    refine .peek ?_
    cases hkind : t.kind with
    | closeParen => exact resumes_pure _ _ _
    | eof => exact absurd hkind (inside t List.mem_cons_self)
    | _ => exact whole.mono (by decide)

/-- Further arguments resume each other. -/
theorem resumable_furtherArguments (ends : last.kind = .eof) (fuel fuel' most : Nat)
    (enough : 4 * (most + 1) + 1 ≤ fuel) (enough' : 4 * (most + 1) + 1 ≤ fuel') :
    Resumable last Kind.stopping [] most (furtherArguments fuel) (furtherArguments fuel') := by
  obtain ⟨fuel, rfl⟩ := Nat.exists_eq_add_of_le' (show 1 ≤ fuel by omega)
  obtain ⟨fuel', rfl⟩ := Nat.exists_eq_add_of_le' (show 1 ≤ fuel' by omega)
  have stays : (furtherArguments (fuel + 1)).run [last] = ⟨[], [last], []⟩ := by
    simp [furtherArguments, current, ends]
  refine ⟨atEnd_of_silent stays fun others follows => ⟨[], ?_⟩, ?_⟩
  · have kinds : ∀ k ∈ Kind.stopping, k ≠ .comma := by decide
    simp [furtherArguments, kinds _ follows]
  · intro tokens nonempty few inside
    obtain ⟨t, tokens, rfl⟩ := List.exists_cons_of_ne_nil nonempty
    rw [List.length_cons] at few
    refine .peek (.ite (fun _ => .advance ?_) fun _ => resumes_pure _ _ _)
    have part := resumable_expression ends fuel fuel' tokens.length (by omega) (by omega)
    have others := resumable_furtherArguments ends fuel fuel' tokens.length (by omega) (by omega)
    have whole := part.bind (fun next next' => others.map (next :: ·) (next' :: ·)) fun _ h => h
    exact whole.resumes_of_length_le (Nat.le_refl _) fun u hu =>
      inside u (List.mem_cons_of_mem t hu)

end

/-! ### Blocks, in which a token is skipped where a statement takes none -/

/-- The statements behind the first one of a block, and the token in front of them
if that is skipped. -/
def furtherStatements (fuel : Nat) (skips : Bool) (first : Stmt) : Parser (List Stmt) := do
  if skips then
    let _ ← advance
  let rest ← statements fuel
  return first :: rest

section Blocks

variable {t : Token} {fuel fuel' : Nat}

/-- Where a statement of a block stands, it is parsed first, and a token is skipped
behind it if it took none. -/
theorem run_statements {others left : List Token} (skips : Bool) (opens : t.kind ≠ .closeCurly)
    (inside : t.kind ≠ .eof) (state : ((statement fuel).run (t :: tokens ++ others)).state = left)
    (same : left.length = (tokens ++ others).length + 1 ↔ skips = true) :
    (statements (fuel + 1)).run (t :: tokens ++ others) =
      (statement fuel >>= furtherStatements fuel skips).run (t :: tokens ++ others) := by
  rw [List.cons_append] at state ⊢
  rw [statements, run_bind]
  dsimp only [run_peek, current_cons]
  split
  next hkind => exact absurd hkind opens
  next hkind => exact absurd hkind inside
  next =>
    rw [← List.length_cons (a := t)] at same
    cases skips with
    | true =>
      have stuck := same.2 rfl
      simp only [furtherStatements, run_bind, run_state, state, stuck, if_true, List.nil_append]
    | false =>
      have moves : left.length ≠ (t :: (tokens ++ others)).length :=
        fun stuck => Bool.noConfusion (same.1 stuck)
      simp only [furtherStatements, run_bind, run_state, state, moves, if_false, Bool.false_eq_true,
        List.nil_append]

/-- The statements behind a first one that took a token resume each other if all
statements do. -/
theorem Resumable.further
    (parts : Resumable last sequel [] most (statements fuel) (statements fuel'))
    (first first' : Stmt) : Resumable last sequel [] most (furtherStatements fuel false first)
      (furtherStatements fuel' false first') :=
  parts.map (first :: ·) (first' :: ·)

/-- The statements behind a first one resume each other, behind the token that is
skipped if the first one took none. -/
theorem Resumable.resumes_further
    (parts : Resumable last sequel [] tokens.length (statements fuel) (statements fuel'))
    (suffix : front <:+ t :: tokens) (inside : ∀ u ∈ t :: tokens, u.kind ≠ .eof)
    (first first' : Stmt) : Resumes last sequel front
      (furtherStatements fuel (decide (front.length = tokens.length + 1)) first)
      (furtherStatements fuel' (decide (front.length = tokens.length + 1)) first') := by
  have further := parts.further first first'
  by_cases stuck : front.length = tokens.length + 1
  · obtain rfl : front = t :: tokens := suffix.eq_of_length stuck
    rw [decide_eq_true stuck]
    exact .advance (further.resumes_of_length_le (Nat.le_refl _) fun u hu =>
      inside u (List.mem_cons_of_mem t hu))
  · have shorter := suffix.length_le
    rw [List.length_cons] at shorter
    rw [decide_eq_false stuck]
    exact further.resumes_of_length_le (by omega) fun u hu => inside u (suffix.subset hu)

/-- If the first statement of a block comes to the end, so do all of them. -/
theorem AtEnd.statements
    (h : AtEnd last sequel (t :: tokens) ds kinds (statement fuel) (statement fuel'))
    (parts : Resumable last sequel' [] most (statements fuel) (statements fuel'))
    (leads : ∀ kind ∈ sequel', kind ∈ sequel) (opens : t.kind ≠ .closeCurly)
    (here : t.kind ≠ .eof) :
    AtEnd last sequel' (t :: tokens) ds kinds (statements (fuel + 1)) (statements (fuel' + 1)) := by
  have whole := h.bind (fun first first' => (parts.further first first').waits) leads
  rw [List.append_nil] at whole
  have moves := run_statements false opens here h.stays (by simp)
  refine ⟨?_, ?_, h.earlier, h.completing, fun others => ?_, fun filled others fills follows => ?_⟩
  · rw [moves]
    exact whole.stays
  · rw [moves]
    exact whole.reports
  · rw [run_statements _ opens here rfl decide_eq_true_iff.symm, run_bind]
    exact (h.starts others).trans (List.prefix_append _ _)
  · have stays := (h.completed filled others fills (leads _ follows)).1
    have shorter : others.length ≠ (tokens ++ (filled ++ others)).length + 1 := by
      simp only [List.length_append]
      omega
    rw [run_statements false opens here stays (by simpa using shorter)]
    exact whole.completed filled others fills follows

/-- Where a statement of a block stands, all of them resume each other if the first
one and those behind it do. -/
theorem Resumes.statements
    (h : Resumes last sequel (t :: tokens) (statement fuel) (statement fuel'))
    (parts : Resumable last sequel' [] tokens.length (statements fuel) (statements fuel'))
    (leads : ∀ kind ∈ sequel', kind ∈ sequel) (opens : t.kind ≠ .closeCurly)
    (inside : ∀ u ∈ t :: tokens, u.kind ≠ .eof) :
    Resumes last sequel' (t :: tokens) (statements (fuel + 1)) (statements (fuel' + 1)) := by
  have here := inside t List.mem_cons_self
  cases h with
  | @inside front ds first first' nonempty suffix earlier run run' =>
    have same (others : List Token) : (front ++ others).length = (tokens ++ others).length + 1 ↔
        decide (front.length = tokens.length + 1) = true := by
      simp only [List.length_append, decide_eq_true_eq]
      omega
    have goesOn := parts.resumes_further suffix inside first first'
    refine (goesOn.after suffix earlier run run').congr ?_ fun others => ?_
    · exact run_statements _ opens here (congrArg Reported.state run) (same [last])
    · exact run_statements _ opens here (congrArg Reported.state (run' others)) (same others)
  | atEnd h => exact .atEnd (h.statements parts leads opens here)

end Blocks

/-! ### Statements -/

mutual

/-- Statements resume each other. -/
theorem resumable_statement (ends : last.kind = .eof) (fuel fuel' most : Nat)
    (enough : 4 * (most + 1) + 4 ≤ fuel) (enough' : 4 * (most + 1) + 4 ≤ fuel') :
    Resumable last Kind.stopping [.identifier] most (statement fuel) (statement fuel') := by
  obtain ⟨fuel, rfl⟩ := Nat.exists_eq_add_of_le' (show 1 ≤ fuel by omega)
  obtain ⟨fuel', rfl⟩ := Nat.exists_eq_add_of_le' (show 1 ≤ fuel' by omega)
  have plain := (resumable_expression ends fuel fuel' most (by omega) (by omega)).map
    Stmt.expression Stmt.expression
  refine ⟨plain.waits.congr_nil ?_ ?_, fun tokens nonempty few inside => ?_⟩
  · simp [statement, current, ends]
  · intro filled others fills follows
    obtain ⟨x, rfl, named⟩ := List.map_eq_singleton_iff.1 fills
    simp [statement, named]
  · obtain ⟨t, tokens, rfl⟩ := List.exists_cons_of_ne_nil nonempty
    have few' : tokens.length + 1 ≤ most := few
    have insideTail : ∀ u ∈ tokens, u.kind ≠ .eof := fun u hu =>
      inside u (List.mem_cons_of_mem t hu)
    have part := resumable_expression ends fuel fuel' tokens.length (by omega) (by omega)
    have named : Resumable last [.assignment] [.identifier] tokens.length
        (expect .identifier) (expect .identifier) := resumable_expect ends (by decide)
    have assigned : Resumable last Kind.stopping [.assignment] tokens.length
        (expect .assignment) (expect .assignment) := resumable_expect ends (by decide)
    have declaration : Resumes last Kind.stopping (t :: tokens)
        (do
          let keyword ← advance
          let identifier ← expect .identifier
          let equals ← expect .assignment
          let initializer ← expression fuel
          return Stmt.declaration keyword identifier equals initializer)
        (do
          let keyword ← advance
          let identifier ← expect .identifier
          let equals ← expect .assignment
          let initializer ← expression fuel'
          return Stmt.declaration keyword identifier equals initializer) := by
      have whole := named.bind (fun identifier identifier' => assigned.bind (fun equals equals' =>
        part.map (Stmt.declaration t identifier equals) (Stmt.declaration t identifier' equals'))
        (by decide)) (by decide)
      exact .advance (whole.resumes_of_length_le (Nat.le_refl _) insideTail)
    refine .peek ?_
    cases hkind : t.kind with
    | openCurly =>
      have parts := resumable_statements ends fuel fuel' tokens.length (by omega) (by omega)
      have closes : Resumable last Kind.stopping [.closeCurly] tokens.length
          (expect .closeCurly) (expect .closeCurly) := resumable_expect ends (by decide)
      have whole := parts.bind (fun statements statements' =>
        closes.map (Stmt.block t statements) (Stmt.block t statements')) (by decide)
      exact .expect hkind (whole.resumes_of_length_le (Nat.le_refl _) insideTail)
    | varWord | letWord => exact declaration
    | ifWord =>
      have branch := resumable_statement ends fuel fuel' tokens.length (by omega) (by omega)
      have alternative (condition condition' : Expr) (consequence consequence' : Stmt) :
          Resumable last Kind.stopping [] tokens.length
            (do
              if (← peek) = .elseWord then
                let elseWord ← advance
                let alternative ← statement fuel
                return Stmt.ifElse t condition consequence elseWord alternative
              else
                return Stmt.ifThen t condition consequence)
            (do
              if (← peek) = .elseWord then
                let elseWord ← advance
                let alternative ← statement fuel'
                return Stmt.ifElse t condition' consequence' elseWord alternative
              else
                return Stmt.ifThen t condition' consequence') := by
        have kinds : ∀ k ∈ Kind.stopping, k ≠ .elseWord := by decide
        have waits : last.kind ≠ .elseWord := by
          rw [ends]
          decide
        refine ⟨atEnd_of_silent (a := .ifThen t condition consequence) ?_ fun others follows =>
          ⟨.ifThen t condition' consequence', ?_⟩, fun tokens' nonempty few inside => ?_⟩
        · simp [current, waits]
        · simp [kinds _ follows]
        · obtain ⟨u, tokens', rfl⟩ := List.exists_cons_of_ne_nil nonempty
          rw [List.length_cons] at few
          refine .peek (.ite (fun _ => .advance ?_) fun _ => resumes_pure _ _ _)
          have branch' := resumable_statement ends fuel fuel' tokens'.length (by omega) (by omega)
          have other := branch'.map (Stmt.ifElse t condition consequence u)
            (Stmt.ifElse t condition' consequence' u)
          exact other.resumes_of_length_le (Nat.le_refl _) fun v hv =>
            inside v (List.mem_cons_of_mem u hv)
      have whole := part.bind (fun condition condition' => branch.bind
        (fun consequence consequence' => alternative condition condition' consequence consequence')
        fun _ h => h) (by decide)
      exact .advance (whole.resumes_of_length_le (Nat.le_refl _) insideTail)
    | whileWord =>
      have body := resumable_statement ends fuel fuel' tokens.length (by omega) (by omega)
      have whole := part.bind (fun condition condition' =>
        body.map (Stmt.whileLoop t condition) (Stmt.whileLoop t condition')) (by decide)
      exact .advance (whole.resumes_of_length_le (Nat.le_refl _) insideTail)
    | forWord =>
      have body := resumable_statement ends fuel fuel' tokens.length (by omega) (by omega)
      have reaches : Resumable last Kind.stopping [.toWord] tokens.length
          (expect .toWord) (expect .toWord) := resumable_expect ends (by decide)
      have whole := named.bind (fun identifier identifier' => assigned.bind (fun equals equals' =>
        part.bind (fun lower lower' => reaches.bind (fun toWord toWord' =>
          part.bind (fun upper upper' =>
            body.map (Stmt.forLoop t identifier equals lower toWord upper)
              (Stmt.forLoop t identifier' equals' lower' toWord' upper'))
            (by decide)) (by decide)) (by decide)) (by decide)) (by decide)
      exact .advance (whole.resumes_of_length_le (Nat.le_refl _) insideTail)
    | eof => exact absurd hkind (inside t List.mem_cons_self)
    | _ => exact plain.resumes _ nonempty few inside

/-- The statements of a block resume each other where the block is closed. -/
theorem resumable_statements (ends : last.kind = .eof) (fuel fuel' most : Nat)
    (enough : 4 * (most + 1) + 5 ≤ fuel) (enough' : 4 * (most + 1) + 5 ≤ fuel') :
    Resumable last [.closeCurly, .eof] [] most (statements fuel) (statements fuel') := by
  obtain ⟨fuel, rfl⟩ := Nat.exists_eq_add_of_le' (show 1 ≤ fuel by omega)
  obtain ⟨fuel', rfl⟩ := Nat.exists_eq_add_of_le' (show 1 ≤ fuel' by omega)
  have stays : (statements (fuel + 1)).run [last] = ⟨[], [last], []⟩ := by
    simp [statements, current, ends]
  refine ⟨atEnd_of_silent stays fun others follows => ⟨[], ?_⟩, ?_⟩
  · simp only [List.mem_cons, List.not_mem_nil, or_false] at follows
    rcases follows with hkind | hkind <;> simp [statements, hkind]
  · intro tokens nonempty few inside
    obtain ⟨t, tokens, rfl⟩ := List.exists_cons_of_ne_nil nonempty
    have few' : tokens.length + 1 ≤ most := few
    by_cases closes : t.kind = .closeCurly
    · have stops (fuel : Nat) (others : List Token) :
          (statements (fuel + 1)).run (t :: tokens ++ others) =
            ⟨[], t :: tokens ++ others, []⟩ := by
        simp [statements, closes]
      have empty : Resumes last [.closeCurly, .eof] (t :: tokens)
          (Pure.pure [] : Parser (List Stmt)) (Pure.pure [] : Parser (List Stmt)) :=
        resumes_pure _ _ _
      exact empty.congr (stops fuel [last]) (stops fuel')
    · have first := resumable_statement ends fuel fuel' most (by omega) (by omega)
      have others := resumable_statements ends fuel fuel' tokens.length (by omega) (by omega)
      exact (first.resumes (t :: tokens) nonempty few inside).statements others (by decide) closes
        inside

end

end Parser

end Scriptlet.Syntax
