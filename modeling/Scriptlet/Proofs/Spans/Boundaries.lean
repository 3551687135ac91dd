import Scriptlet.Proofs.Resolving.Primitives
import Scriptlet.Proofs.Spans.Nesting

/-!
# Places stand between characters

Wherever a problem is reported, its place lies inside of the text, does not end
before it begins, and both of its ends stand between two characters. This holds
of tokens and stray characters by the way in which they are scanned, of what is
made up in front of them, and of every node of the tree, at which alone problems
of names and types are reported.
-/

namespace Scriptlet

/-- The position stands between two characters of a text, or at one of its ends. -/
def Text.Boundary (source : List Char) (position : Nat) : Prop :=
  ∃ before after, source = before ++ after ∧ position = Text.width before

/-- The place is one in a text: it does not end before it begins, and both of its
ends stand between characters. -/
structure Span.Marks (source : List Char) (span : Span) : Prop where
  proper : span.start ≤ span.stop
  start : Text.Boundary source span.start
  stop : Text.Boundary source span.stop

variable {source text : List Char} {span : Span} {position : Nat}

/-- What stands between characters of a text stands inside of it. -/
theorem Text.Boundary.le_width (h : Text.Boundary source position) :
    position ≤ Text.width source := by
  obtain ⟨before, after, rfl, rfl⟩ := h
  rw [Text.width_append]
  exact Nat.le_add_right _ _

/-- A place that marks a text inside of a source is one in the source. -/
theorem Span.Cuts.marks (h : span.Cuts source text) : span.Marks source := by
  obtain ⟨before, after, rfl, rfl⟩ := h
  refine ⟨?_, ⟨before, text ++ after, rfl, rfl⟩, ⟨before ++ text, after, by simp, rfl⟩⟩
  rw [Text.width_append]
  exact Nat.le_add_right _ _

/-- A place without width where another one begins is one in the source. -/
theorem Span.Marks.empty (h : span.Marks source) : (Span.empty span.start).Marks source :=
  ⟨Nat.le_refl _, h.start, h.start⟩

/-- What covers two places in a source is a place in it. -/
theorem Span.Marks.cover {span' : Span} (h : span.Marks source) (h' : span'.Marks source) :
    (span.cover span').Marks source := by
  refine ⟨?_, ?_, ?_⟩
  · have hproper := h.proper
    simp only [Span.cover]
    omega
  · rw [Span.cover]
    rcases Nat.le_total span.start span'.start with hle | hle
    · simpa only [Nat.min_eq_left hle] using h.start
    · simpa only [Nat.min_eq_right hle] using h'.start
  · rw [Span.cover]
    rcases Nat.le_total span.stop span'.stop with hle | hle
    · simpa only [Nat.max_eq_right hle] using h'.stop
    · simpa only [Nat.max_eq_left hle] using h.stop

namespace Resolving

open Reporting

/-- A computation reports at places of a sort alone. -/
def ReportsAt (P : Span → Prop) {α : Type} (m : Resolving α) : Prop :=
  ∀ s, ∀ d ∈ (m.run s).diagnostics, P d.span

variable {P : Span → Prop} {α β : Type} {m : Resolving α} {f : α → Resolving β}

/-- A computation that reports nothing does so at no other place. -/
theorem reportsAt_of_silent (silent : ∀ s, (m.run s).diagnostics = []) : ReportsAt P m := by
  intro s d hd
  rw [silent] at hd
  cases hd

/-- A sequence reports where its parts do. -/
theorem ReportsAt.bind (h : ReportsAt P m) (h' : ∀ s, ReportsAt P (f (m.run s).value)) :
    ReportsAt P (m >>= f) := by
  intro s
  rw [run_bind]
  exact List.forall_mem_append.2 ⟨h s, h' s _⟩

/-- A scope is opened and closed without a report. -/
theorem ReportsAt.inScope (h : ReportsAt P m) : ReportsAt P (inScope m) := by
  have opens : ReportsAt P openScope := reportsAt_of_silent fun _ => rfl
  have closes : ReportsAt P closeScope := reportsAt_of_silent fun _ => rfl
  exact opens.bind fun _ => h.bind fun _ => closes.bind fun _ => reportsAt_of_silent fun _ => rfl

/-- Nothing but a report reports. -/
theorem closed_reportsAt (P : Span → Prop) : Closed P fun _ => ReportsAt P where
  pure _ := reportsAt_of_silent fun _ => rfl
  bind := ReportsAt.bind
  report _ _ place _ := List.forall_mem_singleton.2 place
  visibleVariable _ := reportsAt_of_silent fun _ => rfl
  visibleFunction _ := reportsAt_of_silent fun _ => rfl
  newVariable _ _ _ := reportsAt_of_silent fun _ => rfl
  declare _ := reportsAt_of_silent fun _ => rfl
  inScope := ReportsAt.inScope

end Resolving

/-- What holds of places holds of those without width where they begin, and of what covers
two of them. -/
structure Span.Extends (P : Span → Prop) : Prop where
  empty : ∀ {span : Span}, P span → P (.empty span.start)
  cover : ∀ {span span' : Span}, P span → P span' → P (span.cover span')

/-- The sort of places in a source extends to what covers them. -/
theorem Span.extends_marks (source : List Char) : Span.Extends (Span.Marks source) :=
  ⟨Span.Marks.empty, Span.Marks.cover⟩

namespace Syntax

open Node

variable {P : Span → Prop}

mutual

/-- If the leaves of a tree stand at places of a sort, so do all of its nodes. -/
theorem Node.every_place (more : Span.Extends P) (node : Node) (reaches : node.Every Reaches)
    (places : ∀ t ∈ node.leaves, P t.span) : node.Every fun node => P node.span := by
  cases node with
  | leaf token => exact places token List.mem_cons_self
  | branch name span children =>
    obtain ⟨⟨first, hfirst, last, hlast, hspan⟩, reaches⟩ := reaches
    have others := Node.allEvery_place more children reaches places
    have here := Node.allEvery_iff_forall_mem.1 others
    refine ⟨?_, others⟩
    show P span
    rw [hspan]
    exact more.cover (here first (List.mem_of_mem_head? hfirst)).self
      (here last (List.mem_of_mem_getLast? hlast)).self

/-- If the leaves of a row of trees stand at places of a sort, so do all of its nodes. -/
theorem Node.allEvery_place (more : Span.Extends P) (nodes : List Node)
    (reaches : AllEvery Reaches nodes) (places : ∀ t ∈ leavesOfAll nodes, P t.span) :
    AllEvery (fun node => P node.span) nodes := by
  cases nodes with
  | nil => trivial
  | cons node nodes =>
    obtain ⟨here, others⟩ := List.forall_mem_append.1 places
    exact ⟨Node.every_place more node reaches.1 here,
      Node.allEvery_place more nodes reaches.2 others⟩

end

/-- If all tokens of a whole text stand at places of a sort, so do all nodes of its tree
and all reports about it. -/
theorem parse_places (more : Span.Extends P) {tokens : List Token} (whole : Whole tokens)
    (places : ∀ t ∈ tokens, P t.span) :
    ((parse tokens).1.node.Every fun node => P node.span) ∧
      ∀ d ∈ (parse tokens).2, P d.span := by
  obtain ⟨events, ended, found, ignored, part, leaf, split, placed, reported, ends⟩ :=
    exists_accounting whole
  have nonempty : found :: ignored ≠ [] := List.cons_ne_nil _ _
  have here : P found.span := places found (by simp [split])
  rw [split] at places
  constructor
  · refine Node.every_place more _ (Script.every_reaches _) fun t ht => ?_
    rw [part.script_leaves, List.mem_append, List.mem_singleton] at ht
    rcases ht with ht | rfl
    · obtain ⟨u, hu, span | span⟩ := placed.exists_of_leaf nonempty t ht
      · exact span ▸ places u hu
      · exact span ▸ more.empty (places u hu)
    · rcases ends with ⟨rfl, -⟩ | rfl
      · exact Option.some.inj leaf ▸ here
      · exact Option.some.inj leaf ▸ more.empty here
  · intro d hd
    rw [reported, Event.reports_append, List.mem_append] at hd
    rcases hd with hd | hd
    · obtain ⟨u, hu, span⟩ := placed.exists_of_report nonempty d hd
      exact span ▸ places u hu
    · rcases ends with ⟨rfl, -⟩ | rfl
      · cases hd
      · obtain rfl := List.mem_singleton.1 hd
        exact here

/-- If all tokens of a whole text stand at places in a source, so do all nodes of
its tree and all reports about it. -/
theorem parse_marks {tokens : List Token} (whole : Whole tokens)
    (places : ∀ t ∈ tokens, t.span.Marks source) :
    ((parse tokens).1.node.Every fun node => node.span.Marks source) ∧
      ∀ d ∈ (parse tokens).2, d.span.Marks source :=
  parse_places (Span.extends_marks source) whole places

end Syntax

/-- The places in a text nest. Every node of its tree, with or without errors,
does not end before it begins and contains its children, and none of these begins
before the one in front of it has ended. Every problem of scanning, parsing and
resolving the text, behind whatever submissions, is reported at a place that does
not end before it begins, lies inside of the text and has both of its ends between
characters. -/
theorem Submission.places_nest (text : String) (earlier : List Submission) (nextId : Nat) :
    (∀ entry ∈ (Syntax.Source.ofText text).script.node.preorder 0, entry.2.Nests) ∧
    ∀ d ∈ (compile earlier nextId (Syntax.Source.ofText text)).1.diagnostics,
      d.span.start ≤ d.span.stop ∧ d.span.stop ≤ text.utf8ByteSize ∧
        Text.Boundary text.toList d.span.start ∧ Text.Boundary text.toList d.span.stop := by
  refine ⟨(Syntax.Node.every_iff 0 _).1 (Syntax.Source.every_nests text), fun d hd => ?_⟩
  suffices marks : d.span.Marks text.toList by
    have inside := marks.stop.le_width
    rw [Text.width_toList] at inside
    exact ⟨marks.proper, inside, marks.start, marks.stop⟩
  have covers := Scan.covers_scanFrom 0 text.toList
  have tokens : ∀ t ∈ (tokenize text).tokens, t.span.Marks text.toList := fun t ht =>
    (covers.cuts Text.width_nil.symm t ht).marks
  obtain ⟨nodes, parsed⟩ := Syntax.parse_marks (Syntax.whole_tokenize text) tokens
  rw [diagnostics, List.mem_append] at hd
  rcases hd with hd | hd
  · rcases List.mem_append.1 hd with hd | hd
    · obtain ⟨cut, hcut⟩ := covers.reports_cut Text.width_nil.symm d hd
      exact hcut.marks
    · exact parsed d hd
  · exact Syntax.Stmt.closed_resolve (Resolving.closed_reportsAt _) _ nodes.2.1 _ d hd

end Scriptlet
