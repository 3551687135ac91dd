import Scriptlet.Proofs.Parsing.Complete

/-!
# The places of a tree nest

The leaves of a parsed tree stand in the order of the source, since every token
that was made up stands in front of the next one of the source. A node reaches
from its first child to its last, so it contains all of its children, and none of
them begins before the one in front of it has ended.
-/

namespace Scriptlet.Syntax

/-- None of the tokens ends before it begins, or behind the beginning of a later
one. -/
structure Ordered (tokens : List Token) : Prop where
  proper : ∀ t ∈ tokens, t.span.start ≤ t.span.stop
  apart : tokens.Pairwise fun t u => t.span.stop ≤ u.span.start

/-- Tokens are ordered if the first one is, the others are and it ends before any
of them begins. -/
theorem ordered_cons {t : Token} {tokens : List Token} : Ordered (t :: tokens) ↔
    t.span.start ≤ t.span.stop ∧ (∀ u ∈ tokens, t.span.stop ≤ u.span.start) ∧ Ordered tokens := by
  constructor
  · intro h
    have proper := List.forall_mem_cons.1 h.proper
    have apart := List.pairwise_cons.1 h.apart
    exact ⟨proper.1, apart.1, proper.2, apart.2⟩
  · intro ⟨proper, before, others⟩
    exact ⟨List.forall_mem_cons.2 ⟨proper, others.proper⟩, .cons before others.apart⟩

/-- Two rows of tokens are ordered one behind the other if both are and the first
one ends before the second one begins. -/
theorem ordered_append {tokens tokens' : List Token} : Ordered (tokens ++ tokens') ↔
    Ordered tokens ∧ Ordered tokens' ∧
      ∀ t ∈ tokens, ∀ u ∈ tokens', t.span.stop ≤ u.span.start := by
  constructor
  · intro h
    have proper := List.forall_mem_append.1 h.proper
    have apart := List.pairwise_append.1 h.apart
    exact ⟨⟨proper.1, apart.1⟩, ⟨proper.2, apart.2.1⟩, apart.2.2⟩
  · intro ⟨first, second, between⟩
    exact ⟨List.forall_mem_append.2 ⟨first.proper, second.proper⟩,
      List.pairwise_append.2 ⟨first.apart, second.apart, between⟩⟩

/-! ### The leaves of a parsed tree are ordered -/

section Leaves

open Event

variable {events : List Event} {rest : List Token}

/-- If the tokens are ordered, so are the leaves with one more that begins where
the tokens that are left begin. -/
theorem Event.Placed.ordered_leaves (h : Placed events rest) (nonempty : rest ≠ [])
    (ordered : Ordered (taken events ++ rest)) {last : Token}
    (start : last.span.start = (Parser.current rest).span.start)
    (proper : last.span.start ≤ last.span.stop) : Ordered (leaves events ++ [last]) := by
  -- Whatever ends before all tokens begin ends before all leaves begin.
  have before {events : List Event} (h : Placed events rest) {n : Nat}
      (hn : ∀ t ∈ taken events ++ rest, n ≤ t.span.start) :
      ∀ u ∈ leaves events ++ [last], n ≤ u.span.start := by
    intro u hu
    rcases List.mem_append.1 hu with hu | hu
    · obtain ⟨t, mem, span | span⟩ := h.exists_of_leaf nonempty u hu
      · exact span ▸ hn t mem
      · exact span ▸ hn t mem
    · obtain rfl := List.mem_singleton.1 hu
      rw [start]
      refine hn _ (List.mem_append_right _ ?_)
      rw [Parser.eq_cons_current nonempty]
      exact List.mem_cons_self
  induction events with
  | nil =>
    refine ordered_cons.2 ⟨proper, nofun, nofun, .nil⟩
  | cons event events ih =>
    cases event with
    | missed found expected =>
      obtain ⟨row, hrow⟩ := h.exists_row nonempty
      have ordered : Ordered (taken events ++ rest) := ordered
      refine ordered_cons.2 ⟨Nat.le_refl _, before h.2 fun t ht => ?_, ih h.2 ordered⟩
      show found.span.start ≤ t.span.start
      rw [hrow] at ht ordered
      obtain ⟨hproper, hbefore, -⟩ := ordered_cons.1 ordered
      obtain rfl | ht := List.mem_cons.1 ht
      · exact Nat.le_refl _
      · have hstop := hbefore t ht
        omega
    | kept token =>
      obtain ⟨hproper, hbefore, others⟩ := ordered_cons.1 ordered
      exact ordered_cons.2 ⟨hproper, before h.2 hbefore, ih h.2 others⟩
    | separated token | skipped token => exact ih h.2 (ordered_cons.1 ordered).2.2

end Leaves

/-- The leaves of the tree are ordered if the tokens of the whole text are. -/
theorem ordered_leaves_parse {tokens : List Token} (whole : Whole tokens)
    (ordered : Ordered tokens) : Ordered (parse tokens).1.node.leaves := by
  obtain ⟨events, ended, found, ignored, part, leaf, split, placed, -, ends⟩ :=
    exists_accounting whole
  have nonempty : found :: ignored ≠ [] := List.cons_ne_nil _ _
  rw [part.script_leaves]
  have proper : found.span.start ≤ found.span.stop := ordered.proper found (by simp [split])
  rw [split] at ordered
  rcases ends with ⟨rfl, -⟩ | rfl
  · obtain rfl := Option.some.inj leaf
    exact placed.ordered_leaves nonempty ordered rfl proper
  · rw [← Option.some.inj leaf]
    exact placed.ordered_leaves nonempty ordered rfl (Nat.le_refl _)

/-! ### Nodes reach from their first child to their last -/

namespace Node

/-- A branch reaches from its first child to its last. -/
def Reaches : Node → Prop
  | leaf _ => True
  | branch _ span children =>
    ∃ first ∈ children.head?, ∃ last ∈ children.getLast?, span = first.span.cover last.span

/-- A node contains its children, and none of them begins before the one in front
of it has ended. -/
structure Nests (node : Node) : Prop where
  proper : node.span.start ≤ node.span.stop
  within : ∀ child ∈ node.children, child.span.Within node.span
  apart : node.children.Pairwise fun child next => child.span.stop ≤ next.span.start

end Node

/-- A range covers itself with nothing more. -/
@[simp] theorem Span.cover_self (span : Span) : span.cover span = span := by
  simp [Span.cover]

open Node

mutual

/-- Every node of an expression reaches from its first child to its last. -/
theorem Expr.every_reaches (e : Expr) : e.node.Every Reaches := by
  cases e with
  | literal token => simp [Expr.node, Every, AllEvery, Reaches]
  | name identifier => simp [Expr.node, Every, AllEvery, Reaches]
  | assignment identifier equals value =>
    simp [Expr.node, Every, AllEvery, Reaches, Expr.span, value.every_reaches]
  | unary operator operand =>
    simp [Expr.node, Every, AllEvery, Reaches, Expr.span, operand.every_reaches]
  | binary left operator right =>
    simp [Expr.node, Every, AllEvery, Reaches, Expr.span, left.every_reaches, right.every_reaches]
  | grouped opening inner closing =>
    simp [Expr.node, Every, AllEvery, Reaches, Expr.span, inner.every_reaches]
  | call identifier opening arguments closing =>
    simp [Expr.node, Every, AllEvery, Reaches, Expr.span, Expr.allEvery_reaches arguments,
      List.getLast?_cons]

/-- Every node of some expressions reaches from its first child to its last. -/
theorem Expr.allEvery_reaches (es : List Expr) : AllEvery Reaches (Expr.nodes es) := by
  cases es with
  | nil => trivial
  | cons e es => exact ⟨e.every_reaches, Expr.allEvery_reaches es⟩

end

mutual

/-- Every node of a statement reaches from its first child to its last. -/
theorem Stmt.every_reaches (s : Stmt) : s.node.Every Reaches := by
  cases s with
  | block opening statements closing =>
    simp [Stmt.node, Every, AllEvery, Reaches, Stmt.span, Stmt.allEvery_reaches statements,
      List.getLast?_cons]
  | declaration keyword identifier equals initializer =>
    simp [Stmt.node, Every, AllEvery, Reaches, Stmt.span, initializer.every_reaches]
  | ifThen keyword condition consequence =>
    simp [Stmt.node, Every, AllEvery, Reaches, Stmt.span, condition.every_reaches,
      consequence.every_reaches]
  | ifElse keyword condition consequence elseWord alternative =>
    simp [Stmt.node, Every, AllEvery, Reaches, Stmt.span, condition.every_reaches,
      consequence.every_reaches, alternative.every_reaches]
  | whileLoop keyword condition body =>
    simp [Stmt.node, Every, AllEvery, Reaches, Stmt.span, condition.every_reaches,
      body.every_reaches]
  | forLoop keyword identifier equals lower toWord upper body =>
    simp [Stmt.node, Every, AllEvery, Reaches, Stmt.span, lower.every_reaches,
      upper.every_reaches, body.every_reaches]
  | expression inner => simp [Stmt.node, Every, AllEvery, Reaches, inner.every_reaches]

/-- Every node of some statements reaches from its first child to its last. -/
theorem Stmt.allEvery_reaches (ss : List Stmt) : AllEvery Reaches (Stmt.nodes ss) := by
  cases ss with
  | nil => trivial
  | cons s ss => exact ⟨s.every_reaches, Stmt.allEvery_reaches ss⟩

end

/-- Every node of a submission reaches from its first child to its last. -/
theorem Script.every_reaches (s : Script) : s.node.Every Reaches := by
  simp [Script.node, Every, AllEvery, Reaches, Script.span, s.statement.every_reaches]

namespace Node

/-- The leaves of each node of a row are among those of the row. -/
theorem mem_leavesOfAll {nodes : List Node} {node : Node} (h : node ∈ nodes) {t : Token}
    (ht : t ∈ node.leaves) : t ∈ leavesOfAll nodes := by
  induction nodes with
  | nil => cases h
  | cons first nodes ih =>
    rw [leavesOfAll, List.mem_append]
    obtain rfl | h := List.mem_cons.1 h
    · exact .inl ht
    · exact .inr (ih h)

/-- A node begins no earlier and ends no later than its leaves do. -/
structure Bounded (node : Node) : Prop where
  proper : node.span.start ≤ node.span.stop
  above : ∀ n, (∀ t ∈ node.leaves, n ≤ t.span.start) → n ≤ node.span.start
  below : ∀ n, (∀ t ∈ node.leaves, t.span.stop ≤ n) → node.span.stop ≤ n

/-- Nodes that are bounded by ordered leaves end before later ones begin. -/
theorem Bounded.apart {node next : Node} (h : node.Bounded) (h' : next.Bounded)
    (between : ∀ t ∈ node.leaves, ∀ u ∈ next.leaves, t.span.stop ≤ u.span.start) :
    node.span.stop ≤ next.span.start :=
  h'.above _ fun u hu => h.below _ fun t ht => between t ht u hu

/-- Nodes one behind the other stand between the beginning of the first and the end
of the last. -/
theorem between_ends {nodes : List Node} {first last : Node}
    (proper : ∀ node ∈ nodes, node.span.start ≤ node.span.stop)
    (apart : nodes.Pairwise fun node next => node.span.stop ≤ next.span.start)
    (hfirst : first ∈ nodes.head?) (hlast : last ∈ nodes.getLast?) :
    ∀ node ∈ nodes, first.span.start ≤ node.span.start ∧ node.span.stop ≤ last.span.stop := by
  intro node hnode
  constructor
  · obtain ⟨behind, rfl⟩ := List.head?_eq_some_iff.1 hfirst
    obtain rfl | hnode := List.mem_cons.1 hnode
    · exact Nat.le_refl _
    · have hproper := proper first List.mem_cons_self
      have hapart := (List.pairwise_cons.1 apart).1 node hnode
      omega
  · obtain ⟨front, rfl⟩ := List.getLast?_eq_some_iff.1 hlast
    rcases List.mem_append.1 hnode with hnode | hnode
    · have hproper := proper last (List.mem_append_right _ List.mem_cons_self)
      have hapart := (List.pairwise_append.1 apart).2.2 node hnode last List.mem_cons_self
      omega
    · obtain rfl := List.mem_singleton.1 hnode
      exact Nat.le_refl _

mutual

/-- Over ordered leaves, nodes that reach from their first child to their last
nest. -/
theorem every_nests (node : Node) (reaches : node.Every Reaches) (ordered : Ordered node.leaves) :
    node.Bounded ∧ node.Every Nests := by
  cases node with
  | leaf token =>
    have proper : token.span.start ≤ token.span.stop := ordered.proper token List.mem_cons_self
    refine ⟨⟨proper, ?_, ?_⟩, proper, nofun, .nil⟩
    · exact fun n hn => hn token List.mem_cons_self
    · exact fun n hn => hn token List.mem_cons_self
  | branch name span children =>
    obtain ⟨⟨first, hfirst, last, hlast, hspan⟩, reaches⟩ := reaches
    obtain ⟨bounded, apart, nests⟩ := allEvery_nests children reaches ordered
    have hmem : first ∈ children := List.mem_of_mem_head? hfirst
    have hmem' : last ∈ children := List.mem_of_mem_getLast? hlast
    have properAll : ∀ child ∈ children, child.span.start ≤ child.span.stop :=
      fun child hchild => (bounded child hchild).proper
    have inside := between_ends properAll apart hfirst hlast
    have start : span.start = first.span.start := by
      rw [hspan]
      exact Nat.min_eq_left (inside last hmem').1
    have stop : span.stop = last.span.stop := by
      rw [hspan]
      exact Nat.max_eq_right (inside first hmem).2
    have proper : span.start ≤ span.stop := by
      have hproper := (bounded first hmem).proper
      have hstop := (inside first hmem).2
      omega
    refine ⟨⟨proper, fun n hn => ?_, fun n hn => ?_⟩, ⟨proper, fun child hchild => ?_, apart⟩,
      nests⟩
    · show n ≤ span.start
      rw [start]
      exact (bounded first hmem).above n fun t ht => hn t (mem_leavesOfAll hmem ht)
    · show span.stop ≤ n
      rw [stop]
      exact (bounded last hmem').below n fun t ht => hn t (mem_leavesOfAll hmem' ht)
    · have hinside := inside child hchild
      rw [← start, ← stop] at hinside
      exact hinside

/-- Over ordered leaves, each node of a row nests and ends before the next one
begins. -/
theorem allEvery_nests (nodes : List Node) (reaches : AllEvery Reaches nodes)
    (ordered : Ordered (leavesOfAll nodes)) : (∀ node ∈ nodes, node.Bounded) ∧
      nodes.Pairwise (fun node next => node.span.stop ≤ next.span.start) ∧
      AllEvery Nests nodes := by
  cases nodes with
  | nil => exact ⟨nofun, .nil, trivial⟩
  | cons node nodes =>
    rw [leavesOfAll] at ordered
    obtain ⟨here, others, between⟩ := ordered_append.1 ordered
    obtain ⟨bounded, nests⟩ := every_nests node reaches.1 here
    obtain ⟨bounded', apart, nests'⟩ := allEvery_nests nodes reaches.2 others
    refine ⟨List.forall_mem_cons.2 ⟨bounded, bounded'⟩, .cons (fun next hnext => ?_) apart, nests,
      nests'⟩
    exact bounded.apart (bounded' next hnext) fun t ht u hu =>
      between t ht u (mem_leavesOfAll hnext hu)

end

end Node

/-- The tokens of a text are ordered. -/
theorem ordered_tokenize (text : String) : Ordered (tokenize text).tokens := by
  have covers := Scan.covers_scanFrom 0 text.toList
  exact ⟨fun t ht => (covers.le_start t ht).2, covers.pairwise⟩

/-- Every node of the tree of a text nests. -/
theorem Source.every_nests (text : String) : (ofText text).script.node.Every Node.Nests :=
  (Node.every_nests _ (Script.every_reaches _)
    (ordered_leaves_parse (whole_tokenize text) (ordered_tokenize text))).2

end Scriptlet.Syntax
