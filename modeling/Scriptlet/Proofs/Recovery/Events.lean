import Mathlib.Data.List.Forall2
import Scriptlet.Syntax.Node
import Scriptlet.Syntax.Parser

/-!
# What becomes of the tokens

Whatever tokens are parsed, the way of the parser through them is a row of
events: a token becomes a leaf, a missing token is made up for one that is
reported, a comma is passed between two arguments, or a token is skipped in a
block right behind a report about it. The tree, the reports and the tokens taken
can all be read off these events.
-/

namespace Scriptlet.Syntax

open Reporting

/-- The token that is read next is the first of those that are left. -/
theorem Parser.eq_cons_current {tokens : List Token} (nonempty : tokens ≠ []) :
    tokens = current tokens :: tokens.tail := by
  cases tokens with
  | nil => exact absurd rfl nonempty
  | cons => rfl

/-- What the parser does with the next token. -/
inductive Event where
  /-- The token becomes a leaf of the tree. -/
  | kept (token : Token)
  /-- Another kind is required than that of the token found, which is left
  alone; a missing token becomes a leaf. -/
  | missed (found : Token) (expected : Kind)
  /-- A comma between two arguments is passed. -/
  | separated (comma : Token)
  /-- A token with which no statement begins is passed. -/
  | skipped (token : Token)
  deriving Repr

namespace Event

/-- The token that is taken. -/
def taken? : Event → Option Token
  | kept token | separated token | skipped token => some token
  | missed .. => none

/-- The leaf that is made. -/
def leaf? : Event → Option Token
  | kept token => some token
  | missed found expected => some (.missing expected found.span.start)
  | separated _ | skipped _ => none

/-- What is reported. -/
def report? : Event → Option Diagnostic
  | missed found expected => some ⟨.unexpectedToken found.kind expected, found.span⟩
  | kept _ | separated _ | skipped _ => none

/-- The tokens that are taken on the way. -/
def taken (events : List Event) : List Token := events.filterMap taken?

/-- The leaves that are made on the way. -/
def leaves (events : List Event) : List Token := events.filterMap leaf?

/-- What is reported on the way. -/
def reports (events : List Event) : List Diagnostic := events.filterMap report?

/-- Every token that is found to be another one is the next token: behind the
events stands a row of tokens. -/
def Placed : List Event → List Token → Prop
  | [], _ => True
  | event :: events, rest =>
    (∀ found expected, event = missed found expected →
      found = Parser.current (taken events ++ rest)) ∧ Placed events rest

@[simp] theorem taken_append (events events' : List Event) :
    taken (events ++ events') = taken events ++ taken events' := List.filterMap_append

@[simp] theorem leaves_append (events events' : List Event) :
    leaves (events ++ events') = leaves events ++ leaves events' := List.filterMap_append

@[simp] theorem reports_append (events events' : List Event) :
    reports (events ++ events') = reports events ++ reports events' := List.filterMap_append

@[simp] theorem taken_nil : taken [] = [] := rfl

@[simp] theorem leaves_nil : leaves [] = [] := rfl

@[simp] theorem reports_nil : reports [] = [] := rfl

/-- The first event takes its token first. -/
@[simp] theorem taken_cons (event : Event) (events : List Event) :
    taken (event :: events) = event.taken?.toList ++ taken events := by
  cases event <;> rfl

/-- The first event reports first. -/
@[simp] theorem reports_cons (event : Event) (events : List Event) :
    reports (event :: events) = event.report?.toList ++ reports events := by
  cases event <;> rfl

/-- Events are placed if the first ones are, in front of the tokens that the
others take, and the others are. -/
theorem placed_append {events events' : List Event} {rest : List Token} :
    Placed (events ++ events') rest ↔
      Placed events (taken events' ++ rest) ∧ Placed events' rest := by
  induction events with
  | nil => simp [Placed]
  | cons event events ih => simp [Placed, ih, and_assoc]

/-- The first event makes the first leaf. -/
theorem leaves_cons {event : Event} {token : Token} (h : event.leaf? = some token)
    (events : List Event) : leaves (event :: events) = token :: leaves events := by
  simp [leaves, h]

/-! ### Leaves and reports in their order -/

variable {event : Event} {events : List Event} {rest : List Token}

/-- A missing token has the kind that a report requires and stands at its place,
without width. -/
def StandsFor (token : Token) (d : Diagnostic) : Prop :=
  ∃ found expected, d.problem = .unexpectedToken found expected ∧
    token = .missing expected d.span.start

/-- The missing tokens among the leaves stand for the reports, one for each. -/
theorem missing_leaves (present : ∀ token ∈ taken events, token.isMissing = false) :
    List.Forall₂ StandsFor ((leaves events).filter (·.isMissing)) (reports events) := by
  induction events with
  | nil => exact .nil
  | cons event events ih =>
    cases event with
    | missed found expected =>
      exact .cons ⟨found.kind, expected, rfl, rfl⟩ (ih present)
    | kept token =>
      have here : token.isMissing = false := present token List.mem_cons_self
      have others := ih fun token htoken => present token (List.mem_cons_of_mem _ htoken)
      have leaves_eq : leaves (.kept token :: events) = token :: leaves events := rfl
      rwa [leaves_eq, List.filter_cons_of_neg (by simp [here])]
    | separated token => exact ih fun token htoken => present token (List.mem_cons_of_mem _ htoken)
    | skipped token => exact ih fun token htoken => present token (List.mem_cons_of_mem _ htoken)

/-- The other leaves are tokens that were taken, in their order. -/
theorem present_leaves (events : List Event) :
    ((leaves events).filter fun token => !token.isMissing).Sublist (taken events) := by
  induction events with
  | nil => exact .slnil
  | cons event events ih =>
    cases event with
    | missed found expected => exact ih
    | kept token =>
      have kept : leaves (.kept token :: events) = [token] ++ leaves events := rfl
      rw [kept, List.filter_append]
      exact (List.filter_sublist (l := [token])).append ih
    | separated token => exact ih.cons token
    | skipped token => exact ih.cons token

/-- What is found in place of another token is the first of the tokens behind. -/
theorem Placed.exists_row {found : Token} {expected : Kind}
    (h : Placed (missed found expected :: events) rest) (nonempty : rest ≠ []) :
    ∃ row, taken events ++ rest = found :: row := by
  have first := Parser.eq_cons_current (List.append_ne_nil_of_right_ne_nil (taken events) nonempty)
  rw [← h.1 found expected rfl] at first
  exact ⟨_, first⟩

/-- In front of some token, every report is about a token behind it. -/
theorem Placed.exists_of_report (h : Placed events rest) (nonempty : rest ≠ []) :
    ∀ d ∈ reports events, ∃ found ∈ taken events ++ rest, d.span = found.span := by
  induction events with
  | nil => exact nofun
  | cons event events ih =>
    intro d hd
    cases event with
    | missed found expected =>
      obtain rfl | hd := List.mem_cons.1 hd
      · obtain ⟨row, hrow⟩ := h.exists_row nonempty
        have mem : found ∈ taken events ++ rest := by simp [hrow]
        exact ⟨found, mem, rfl⟩
      · exact ih h.2 d hd
    | kept token | separated token | skipped token =>
      obtain ⟨found, mem, span⟩ := ih h.2 d hd
      exact ⟨found, List.mem_cons_of_mem _ mem, span⟩

/-- In front of some token, every leaf stands at the place of a token behind it, or
without width where one begins. -/
theorem Placed.exists_of_leaf (h : Placed events rest) (nonempty : rest ≠ []) :
    ∀ u ∈ leaves events, ∃ t ∈ taken events ++ rest,
      u.span = t.span ∨ u.span = .empty t.span.start := by
  induction events with
  | nil => exact nofun
  | cons event events ih =>
    intro u hu
    cases event with
    | missed found expected =>
      obtain rfl | hu := List.mem_cons.1 hu
      · obtain ⟨row, hrow⟩ := h.exists_row nonempty
        have mem : found ∈ taken events ++ rest := by simp [hrow]
        exact ⟨found, mem, .inr rfl⟩
      · exact ih h.2 u hu
    | kept token =>
      obtain rfl | hu := List.mem_cons.1 hu
      · exact ⟨u, List.mem_cons_self, .inl rfl⟩
      · obtain ⟨t, mem, span⟩ := ih h.2 u hu
        exact ⟨t, List.mem_cons_of_mem _ mem, span⟩
    | separated token | skipped token =>
      obtain ⟨t, mem, span⟩ := ih h.2 u hu
      exact ⟨t, List.mem_cons_of_mem _ mem, span⟩

/-- If no token begins before the one in front of it, no report does. -/
theorem Placed.reports_sorted (h : Placed events rest) (nonempty : rest ≠ [])
    (sorted : (taken events ++ rest).Pairwise fun t u => t.span.start ≤ u.span.start) :
    (reports events).Pairwise fun d d' => d.span.start ≤ d'.span.start := by
  induction events with
  | nil => exact .nil
  | cons event events ih =>
    cases event with
    | missed found expected =>
      obtain ⟨row, hrow⟩ := h.exists_row nonempty
      have sorted : (taken events ++ rest).Pairwise fun t u => t.span.start ≤ u.span.start := sorted
      refine .cons (fun d hd => ?_) (ih h.2 sorted)
      obtain ⟨found', mem, span⟩ := h.2.exists_of_report nonempty d hd
      rw [hrow] at mem sorted
      rw [span]
      obtain rfl | mem := List.mem_cons.1 mem
      · exact Nat.le_refl _
      · exact (List.pairwise_cons.1 sorted).1 found' mem
    | kept token | separated token | skipped token => exact ih h.2 (List.pairwise_cons.1 sorted).2

end Event

open Event

mutual

/-- The events on the way through an expression. -/
inductive Expr.AccountsFor : Expr → List Event → Prop where
  | literal {token : Token} {event : Event} (leaf : event.leaf? = some token) :
      AccountsFor (.literal token) [event]
  | name {identifier : Token} {event : Event} (leaf : event.leaf? = some identifier) :
      AccountsFor (.name identifier) [event]
  | assignment {identifier equals : Token} {value : Expr} {named assigned : Event}
      {events : List Event} (leaf : named.leaf? = some identifier)
      (leaf' : assigned.leaf? = some equals) (part : AccountsFor value events) :
      AccountsFor (.assignment identifier equals value) (named :: assigned :: events)
  | unary {operator : Token} {operand : Expr} {operated : Event} {events : List Event}
      (leaf : operated.leaf? = some operator) (part : AccountsFor operand events) :
      AccountsFor (.unary operator operand) (operated :: events)
  | binary {left right : Expr} {operator : Token} {operated : Event} {events events' : List Event}
      (part : AccountsFor left events) (leaf : operated.leaf? = some operator)
      (part' : AccountsFor right events') :
      AccountsFor (.binary left operator right) (events ++ operated :: events')
  | grouped {opening closing : Token} {inner : Expr} {opened closed : Event} {events : List Event}
      (leaf : opened.leaf? = some opening) (part : AccountsFor inner events)
      (leaf' : closed.leaf? = some closing) :
      AccountsFor (.grouped opening inner closing) (opened :: (events ++ [closed]))
  | call {identifier opening closing : Token} {arguments : List Expr}
      {named opened closed : Event} {events : List Event} (leaf : named.leaf? = some identifier)
      (leaf' : opened.leaf? = some opening) (parts : Expr.AllAccountFor arguments events)
      (leaf'' : closed.leaf? = some closing) :
      AccountsFor (.call identifier opening arguments closing)
        (named :: opened :: (events ++ [closed]))

/-- The events on the way through the arguments of a call. -/
inductive Expr.AllAccountFor : List Expr → List Event → Prop where
  | nil : AllAccountFor [] []
  | cons {e : Expr} {es : List Expr} {events events' : List Event}
      (part : Expr.AccountsFor e events) (further : Expr.FurtherAccountFor es events') :
      AllAccountFor (e :: es) (events ++ events')

/-- The events on the way through the arguments behind the first one: a comma is
passed in front of each. -/
inductive Expr.FurtherAccountFor : List Expr → List Event → Prop where
  | nil : FurtherAccountFor [] []
  | cons {comma : Token} {e : Expr} {es : List Expr} {events events' : List Event}
      (separates : comma.kind = .comma) (part : Expr.AccountsFor e events)
      (further : FurtherAccountFor es events') :
      FurtherAccountFor (e :: es) (.separated comma :: (events ++ events'))

end

mutual

/-- The events on the way through a statement. -/
inductive Stmt.AccountsFor : Stmt → List Event → Prop where
  | block {opening closing : Token} {statements : List Stmt} {opened closed : Event}
      {events : List Event} (leaf : opened.leaf? = some opening)
      (parts : Stmt.AllAccountFor statements events) (leaf' : closed.leaf? = some closing) :
      AccountsFor (.block opening statements closing) (opened :: (events ++ [closed]))
  | declaration {keyword identifier equals : Token} {initializer : Expr}
      {declared named assigned : Event} {events : List Event}
      (leaf : declared.leaf? = some keyword) (leaf' : named.leaf? = some identifier)
      (leaf'' : assigned.leaf? = some equals) (part : initializer.AccountsFor events) :
      AccountsFor (.declaration keyword identifier equals initializer)
        (declared :: named :: assigned :: events)
  | ifThen {keyword : Token} {condition : Expr} {consequence : Stmt} {tests : Event}
      {events events' : List Event} (leaf : tests.leaf? = some keyword)
      (test : condition.AccountsFor events) (part : AccountsFor consequence events') :
      AccountsFor (.ifThen keyword condition consequence) (tests :: (events ++ events'))
  | ifElse {keyword elseWord : Token} {condition : Expr} {consequence alternative : Stmt}
      {tests otherwise : Event} {events events' events'' : List Event}
      (leaf : tests.leaf? = some keyword) (test : condition.AccountsFor events)
      (part : AccountsFor consequence events') (leaf' : otherwise.leaf? = some elseWord)
      (part' : AccountsFor alternative events'') :
      AccountsFor (.ifElse keyword condition consequence elseWord alternative)
        (tests :: (events ++ (events' ++ otherwise :: events'')))
  | whileLoop {keyword : Token} {condition : Expr} {body : Stmt} {repeats : Event}
      {events events' : List Event} (leaf : repeats.leaf? = some keyword)
      (test : condition.AccountsFor events) (part : AccountsFor body events') :
      AccountsFor (.whileLoop keyword condition body) (repeats :: (events ++ events'))
  | forLoop {keyword identifier equals toWord : Token} {lower upper : Expr} {body : Stmt}
      {repeats named assigned reaches : Event} {events events' events'' : List Event}
      (leaf : repeats.leaf? = some keyword) (leaf' : named.leaf? = some identifier)
      (leaf'' : assigned.leaf? = some equals) (first : lower.AccountsFor events)
      (reaching : reaches.leaf? = some toWord) (last : upper.AccountsFor events')
      (part : AccountsFor body events'') :
      AccountsFor (.forLoop keyword identifier equals lower toWord upper body)
        (repeats :: named :: assigned :: (events ++ reaches :: (events' ++ events'')))
  | expression {inner : Expr} {events : List Event} (part : inner.AccountsFor events) :
      AccountsFor (.expression inner) events

/-- The events on the way through the statements of a block. A token is skipped
only right behind a report about it. -/
inductive Stmt.AllAccountFor : List Stmt → List Event → Prop where
  | nil : AllAccountFor [] []
  | cons {s : Stmt} {ss : List Stmt} {events events' : List Event}
      (part : Stmt.AccountsFor s events) (parts : AllAccountFor ss events') :
      AllAccountFor (s :: ss) (events ++ events')
  | skipping {s : Stmt} {ss : List Stmt} {events events' : List Event} {token : Token}
      {expected : Kind} (part : Stmt.AccountsFor s (events ++ [.missed token expected]))
      (parts : AllAccountFor ss events') :
      AllAccountFor (s :: ss) (events ++ [.missed token expected] ++ .skipped token :: events')

end

/-- The events on the way through a submission: those of its statement, and what
becomes of its end. -/
inductive Script.AccountsFor : Script → List Event → Prop where
  | script {statement : Stmt} {endOfFile : Token} {ended : Event} {events : List Event}
      (part : statement.AccountsFor events) (leaf : ended.leaf? = some endOfFile) :
      AccountsFor ⟨statement, endOfFile⟩ (events ++ [ended])

/-- An expression has an event. -/
theorem Expr.AccountsFor.ne_nil {e : Expr} {events : List Event} (h : e.AccountsFor events) :
    events ≠ [] := by
  cases h <;> simp

/-- A statement has an event. -/
theorem Stmt.AccountsFor.ne_nil {s : Stmt} {events : List Event} (h : s.AccountsFor events) :
    events ≠ [] := by
  cases h with
  | expression part => exact part.ne_nil
  | block | declaration | ifThen | ifElse | whileLoop | forLoop => exact List.cons_ne_nil _ _

/-! ### The leaves of a tree are those of its events -/

/-- The leaves of two rows of trees are those of the first and of the second. -/
@[simp] theorem Node.leavesOfAll_append (nodes nodes' : List Node) :
    Node.leavesOfAll (nodes ++ nodes') = Node.leavesOfAll nodes ++ Node.leavesOfAll nodes' := by
  induction nodes with
  | nil => rfl
  | cons node nodes ih => simp [Node.leavesOfAll, ih]

mutual

/-- The leaves of an expression are those of its events. -/
theorem Expr.AccountsFor.leaves_eq {e : Expr} {events : List Event} (h : e.AccountsFor events) :
    e.node.leaves = leaves events := by
  cases h with
  | literal leaf => simp [Expr.node, Node.leaves, Node.leavesOfAll, leaves_cons leaf]
  | name leaf => simp [Expr.node, Node.leaves, Node.leavesOfAll, leaves_cons leaf]
  | assignment leaf leaf' part =>
    simp [Expr.node, Node.leaves, Node.leavesOfAll, leaves_cons leaf, leaves_cons leaf',
      part.leaves_eq]
  | unary leaf part =>
    simp [Expr.node, Node.leaves, Node.leavesOfAll, leaves_cons leaf, part.leaves_eq]
  | binary part leaf part' =>
    simp [Expr.node, Node.leaves, Node.leavesOfAll, leaves_cons leaf, part.leaves_eq,
      part'.leaves_eq]
  | grouped leaf part leaf' =>
    simp [Expr.node, Node.leaves, Node.leavesOfAll, leaves_cons leaf, leaves_cons leaf',
      part.leaves_eq]
  | call leaf leaf' parts leaf'' =>
    simp [Expr.node, Node.leaves, Node.leavesOfAll, leaves_cons leaf, leaves_cons leaf',
      leaves_cons leaf'', parts.leaves_eq]

/-- The leaves of arguments are those of their events. -/
theorem Expr.AllAccountFor.leaves_eq {es : List Expr} {events : List Event}
    (h : Expr.AllAccountFor es events) : Node.leavesOfAll (Expr.nodes es) = leaves events := by
  cases h with
  | nil => rfl
  | cons part further =>
    simp [Expr.nodes, Node.leavesOfAll, part.leaves_eq, further.leaves_eq]

/-- The leaves of further arguments are those of their events. -/
theorem Expr.FurtherAccountFor.leaves_eq {es : List Expr} {events : List Event}
    (h : Expr.FurtherAccountFor es events) : Node.leavesOfAll (Expr.nodes es) = leaves events := by
  cases h with
  | nil => rfl
  | @cons comma _ _ events events' _ part further =>
    have passed : leaves (.separated comma :: (events ++ events')) = leaves (events ++ events') :=
      rfl
    simp [Expr.nodes, Node.leavesOfAll, part.leaves_eq, further.leaves_eq, passed]

end

mutual

/-- The leaves of a statement are those of its events. -/
theorem Stmt.AccountsFor.leaves_eq {s : Stmt} {events : List Event} (h : s.AccountsFor events) :
    s.node.leaves = leaves events := by
  cases h with
  | block leaf parts leaf' =>
    simp [Stmt.node, Node.leaves, Node.leavesOfAll, leaves_cons leaf, leaves_cons leaf',
      parts.leaves_eq]
  | declaration leaf leaf' leaf'' part =>
    simp [Stmt.node, Node.leaves, Node.leavesOfAll, leaves_cons leaf, leaves_cons leaf',
      leaves_cons leaf'', part.leaves_eq]
  | ifThen leaf test part =>
    simp [Stmt.node, Node.leaves, Node.leavesOfAll, leaves_cons leaf, test.leaves_eq,
      part.leaves_eq]
  | ifElse leaf test part leaf' part' =>
    simp [Stmt.node, Node.leaves, Node.leavesOfAll, leaves_cons leaf, leaves_cons leaf',
      test.leaves_eq, part.leaves_eq, part'.leaves_eq]
  | whileLoop leaf test part =>
    simp [Stmt.node, Node.leaves, Node.leavesOfAll, leaves_cons leaf, test.leaves_eq,
      part.leaves_eq]
  | forLoop leaf leaf' leaf'' first reaching last part =>
    simp [Stmt.node, Node.leaves, Node.leavesOfAll, leaves_cons leaf, leaves_cons leaf',
      leaves_cons leaf'', leaves_cons reaching, first.leaves_eq, last.leaves_eq, part.leaves_eq]
  | expression part => simp [Stmt.node, Node.leaves, Node.leavesOfAll, part.leaves_eq]

/-- The leaves of the statements of a block are those of their events. -/
theorem Stmt.AllAccountFor.leaves_eq {ss : List Stmt} {events : List Event}
    (h : Stmt.AllAccountFor ss events) : Node.leavesOfAll (Stmt.nodes ss) = leaves events := by
  cases h with
  | nil => rfl
  | cons part parts => simp [Stmt.nodes, Node.leavesOfAll, part.leaves_eq, parts.leaves_eq]
  | @skipping _ _ events events' token expected part parts =>
    have passed : leaves (.skipped token :: events') = leaves events' := rfl
    rw [leaves_append, passed, ← part.leaves_eq, ← parts.leaves_eq]
    rfl

end

/-- The leaves of a submission are those of the events of its statement, and its
end. -/
theorem Stmt.AccountsFor.script_leaves {s : Script} {events : List Event}
    (h : s.statement.AccountsFor events) : s.node.leaves = leaves events ++ [s.endOfFile] := by
  simp [Script.node, Node.leaves, Node.leavesOfAll, h.leaves_eq]

/-- The leaves of a submission are those of its events. -/
theorem Script.AccountsFor.leaves_eq {s : Script} {events : List Event} (h : s.AccountsFor events) :
    s.node.leaves = leaves events := by
  cases h with
  | @script statement endOfFile ended events part leaf =>
    have leaves_eq := Stmt.AccountsFor.script_leaves (s := ⟨statement, endOfFile⟩) part
    rw [leaves_eq, leaves_append, leaves_cons leaf, leaves_nil]

end Scriptlet.Syntax
