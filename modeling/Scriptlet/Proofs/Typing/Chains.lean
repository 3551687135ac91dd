import Scriptlet.Proofs.Parsing.Complete
import Scriptlet.Proofs.Scoping.Lexical
import Scriptlet.Proofs.Typing.Contained

/-!
# Types without values stay contained in sessions

The tokens of a text are plain: none of them denotes a missing value, and a token that
is missing in the tree of the text was reported. So along a chain of submissions, all
of them compiled from texts and whatever is wrong with these, types stay contained: in
the bound trees, in the scopes at every place where names are met, and in the reports.
-/

namespace Scriptlet

/-! ### The tokens and the reports of a text -/

/-- A literal denotes a value. -/
theorem Pattern.literal?_of_token? {p : Pattern} {lexeme : List Char} {span : Span} {t : Token}
    (made : p.token? lexeme span = some t) : t.literal? ≠ some .void := by
  cases p with
  | blanks | comment => cases made
  | word =>
    obtain rfl := Option.some.inj made
    cases Kind.ofWord lexeme <;> simp [wordValue?]
  | digits =>
    obtain rfl := Option.some.inj made
    simp only [integer?]
    split <;> simp
  | closedString | openString | fixed =>
    obtain rfl := Option.some.inj made
    simp

namespace Scan

/-- The literals among the tokens of a text denote values. -/
theorem literal?_scanFrom (position : Nat) (cs : List Char) :
    ∀ t ∈ (scanFrom 0 position cs).tokens, t.literal? ≠ some .void := by
  induction position, cs using scanFrom_induction with
  | ends position => exact List.forall_mem_singleton.2 nofun
  | stray position c cs _ ih => exact ih
  | front position p lexeme rest _ _ ih =>
    refine List.forall_mem_append.2 ⟨fun t made => ?_, ih⟩
    exact Pattern.literal?_of_token? (Option.mem_toList.1 made)

/-- Scanning reports no type but that of integers. -/
theorem namesValues_scanFrom (position : Nat) (cs : List Char) :
    ∀ d ∈ (scanFrom 0 position cs).diagnostics, d.problem.NamesValues := by
  intro d hd
  obtain ⟨-, ⟨c, -, stray⟩ | ⟨t, -, blames⟩⟩ := (covers_scanFrom position cs).reports d hd
  · rw [stray]
    exact List.forall_mem_nil _
  · rcases blames.problem with ⟨number, -⟩ | ⟨literal, -⟩
    · rw [number]
      exact List.forall_mem_singleton.2 (by decide)
    · rw [literal]
      exact List.forall_mem_nil _

end Scan

namespace Syntax

variable {faulty : Prop}

/-- Parsing reports no type. -/
theorem Event.namesValues_reports (events : List Event) :
    ∀ d ∈ Event.reports events, d.problem.NamesValues := by
  intro d hd
  obtain ⟨event, -, reported⟩ := List.mem_filterMap.1 hd
  cases event with
  | missed found expected =>
    obtain rfl := Option.some.inj reported
    exact List.forall_mem_nil _
  | kept | separated | skipped => cases reported

/-- The leaves of a tree are plain if the tokens taken are present and denote values. -/
theorem Event.plain_leaves {events : List Event} (excused : Event.reports events ≠ [] → faulty)
    (present : ∀ token ∈ Event.taken events, token.isMissing = false)
    (literal : ∀ token ∈ Event.taken events, token.literal? ≠ some .void) :
    ∀ token ∈ Event.leaves events, token.Plain faulty := by
  intro token htoken
  obtain ⟨event, hevent, made⟩ := List.mem_filterMap.1 htoken
  cases event with
  | separated | skipped => cases made
  | kept kept =>
    obtain rfl := Option.some.inj made
    have taken : kept ∈ Event.taken events := List.mem_filterMap.2 ⟨_, hevent, rfl⟩
    exact ⟨literal kept taken, fun missing => by simp [present kept taken] at missing⟩
  | missed found expected =>
    obtain rfl := Option.some.inj made
    have reported : ⟨.unexpectedToken found.kind expected, found.span⟩ ∈ Event.reports events :=
      List.mem_filterMap.2 ⟨_, hevent, rfl⟩
    exact ⟨nofun, fun _ => excused (List.ne_nil_of_mem reported)⟩

namespace Source

variable (text : String)

/-- The tree of a text is plain if the problems of the text count as faults. -/
theorem plain_ofText (excused : (ofText text).diagnostics ≠ [] → faulty) :
    (ofText text).script.statement.node.Every (Node.Plain faulty) := by
  have whole := whole_tokenize text
  obtain ⟨events, ended, found, ignored, part, -, split, -, reported, -⟩ := exists_accounting whole
  have taken : ∀ token ∈ Event.taken events, token ∈ (tokenize text).tokens := by
    intro token htoken
    rw [split]
    exact List.mem_append_left _ htoken
  have missed : Event.reports events ≠ [] → faulty := by
    intro some
    apply excused
    rw [ofText, reported, Event.reports_append]
    exact List.append_ne_nil_of_right_ne_nil _ (List.append_ne_nil_of_left_ne_nil some _)
  refine Node.every_plain _ fun token htoken => ?_
  exact Event.plain_leaves missed (fun token htoken => whole.present token (taken token htoken))
    (fun token htoken => Scan.literal?_scanFrom 0 text.toList token (taken token htoken))
    token (part.leaves_eq ▸ htoken)

/-- What is wrong with a text names no type but that of integers. -/
theorem namesValues_ofText : ∀ d ∈ (ofText text).diagnostics, d.problem.NamesValues := by
  obtain ⟨events, ended, found, ignored, -, -, -, -, reported, -⟩ :=
    exists_accounting (whole_tokenize text)
  refine List.forall_mem_append.2 ⟨Scan.namesValues_scanFrom 0 text.toList, ?_⟩
  rw [reported]
  exact Event.namesValues_reports _

end Source

end Syntax

/-! ### The places of a tree -/

/-- The nodes of a part. -/
def Part.nodes : Part → List Syntax.Node
  | .expr e => [e.node]
  | .exprs es => Syntax.Expr.nodes es
  | .stmt s => [s.node]
  | .stmts ss => Syntax.Stmt.nodes ss

namespace Spot

open Reporting Resolving Syntax

/-- The state behind the part. -/
def behind (spot : Spot) : Scoping :=
  match spot.part with
  | .expr e => (e.resolve.run spot.state).state
  | .exprs es => ((Expr.resolveAll es).run spot.state).state
  | .stmt s => (s.resolve.run spot.state).state
  | .stmts ss => ((Stmt.resolveAll ss).run spot.state).state

variable {faulty : Prop} {spot spot' : Spot} {s : Scoping}

/-- Types are contained in front of the part, its tokens are plain, and its reports count
as faults. -/
structure Contained (faulty : Prop) (spot : Spot) : Prop where
  tree : spot.state.tree.Contained faulty
  plain : Node.AllEvery (Node.Plain faulty) spot.part.nodes
  excused : spot.reports ≠ [] → faulty

/-- Types are contained behind a part if they are in front of it. -/
theorem Contained.behind (h : spot.Contained faulty) : spot.behind.tree.Contained faulty := by
  obtain ⟨part, view, s⟩ := spot
  obtain ⟨tree, plain, excused⟩ := h
  cases part with
  | expr e => exact (e.keeps_resolve plain.1 s tree excused).tree
  | exprs es => exact (Expr.keeps_resolveAll es plain s tree excused).tree
  | stmt statement => exact (statement.keeps_resolve plain.1 s tree excused).tree
  | stmts ss => exact (Stmt.keeps_resolveAll ss plain s tree excused).tree

/-- Types are contained where the body of a counting loop begins. -/
theorem contained_counting (tree : s.tree.Contained faulty) (identifier : Token) :
    (counting identifier s).tree.Contained faulty := by
  have opens : (opened s).tree.Contained faulty := tree.push s.current
  rw [counting]
  split
  · exact opens
  · exact opens.declareVariable Ty.contained_int _

/-- Types are contained inside a place if they are at the place. -/
theorem Inside.contained (h : Inside spot spot') (contained : spot.Contained faulty) :
    spot'.Contained faulty := by
  have excused := excused_inside contained.excused h.reports
  obtain ⟨tree, plain, reported⟩ := contained
  have self (ds : List Diagnostic) : ds <:+: ds := List.infix_refl ds
  cases h with
  | value identifier equals value view s =>
    obtain ⟨⟨-, -, -, inside, -⟩, -⟩ := plain
    exact ⟨tree, ⟨inside, trivial⟩, excused⟩
  | operand operator operand view s =>
    obtain ⟨⟨-, -, inside, -⟩, -⟩ := plain
    exact ⟨tree, ⟨inside, trivial⟩, excused⟩
  | left left right operator view s =>
    obtain ⟨⟨-, inside, -⟩, -⟩ := plain
    exact ⟨tree, ⟨inside, trivial⟩, excused⟩
  | right left right operator view s =>
    obtain ⟨⟨-, first, -, inside, -⟩, -⟩ := plain
    have keeps := Expr.keeps_resolveValue (left.keeps_resolve first)
    refine ⟨keeps.tree_behind tree reported ?_, ⟨inside, trivial⟩, excused⟩
    show _ <:+: ((Expr.binary left operator right).resolve.run s).diagnostics
    rw [Expr.resolve_binary]
    exact infix_bind_first (self _)
  | grouped opening closing inner view s =>
    obtain ⟨⟨-, -, inside, -⟩, -⟩ := plain
    exact ⟨tree, ⟨inside, trivial⟩, excused⟩
  | arguments identifier opening closing arguments view s =>
    obtain ⟨⟨-, -, -, others⟩, -⟩ := plain
    exact ⟨tree, ((Node.allEvery_append _ _).1 others).1, excused⟩
  | firstExpr e es view s => exact ⟨tree, ⟨plain.1, trivial⟩, excused⟩
  | otherExprs e es view s =>
    have keeps := Expr.keeps_resolveValue (e.keeps_resolve plain.1)
    refine ⟨keeps.tree_behind tree reported ?_, plain.2, excused⟩
    show _ <:+: ((Expr.resolveAll (e :: es)).run s).diagnostics
    rw [Expr.resolveAll_cons]
    exact infix_bind_first (self _)
  | block opening closing ss view s =>
    obtain ⟨⟨-, -, others⟩, -⟩ := plain
    exact ⟨tree.push s.current, ((Node.allEvery_append _ _).1 others).1, excused⟩
  | initializer keyword identifier equals initializer view s =>
    obtain ⟨⟨-, -, -, -, inside, -⟩, -⟩ := plain
    exact ⟨tree, ⟨inside, trivial⟩, excused⟩
  | thenCondition keyword condition consequence view s =>
    obtain ⟨⟨-, -, test, -⟩, -⟩ := plain
    exact ⟨tree, ⟨test, trivial⟩, excused⟩
  | thenBranch keyword condition consequence view s =>
    obtain ⟨⟨-, -, test, inside, -⟩, -⟩ := plain
    have tested := (condition.keeps_condition test).tree_behind tree reported
      (infix_bind_first (self _))
    exact ⟨tested.push _, ⟨inside, trivial⟩, excused⟩
  | elseCondition keyword elseWord condition consequence alternative view s =>
    obtain ⟨⟨-, -, test, -⟩, -⟩ := plain
    exact ⟨tree, ⟨test, trivial⟩, excused⟩
  | consequence keyword elseWord condition consequence alternative view s =>
    obtain ⟨⟨-, -, test, inside, -⟩, -⟩ := plain
    have tested := (condition.keeps_condition test).tree_behind tree reported
      (infix_bind_first (self _))
    exact ⟨tested.push _, ⟨inside, trivial⟩, excused⟩
  | alternative keyword elseWord condition consequence alternative view s =>
    obtain ⟨⟨-, -, test, inside, -, inside', -⟩, -⟩ := plain
    have tested := (condition.keeps_condition test).tree_behind tree reported
      (infix_bind_first (self _))
    have behind := (consequence.keeps_resolve inside).inScope.tree_behind tested reported
      (infix_bind_second (infix_bind_first (self _)))
    exact ⟨behind.push _, ⟨inside', trivial⟩, excused⟩
  | whileCondition keyword condition body view s =>
    obtain ⟨⟨-, -, test, -⟩, -⟩ := plain
    exact ⟨tree, ⟨test, trivial⟩, excused⟩
  | whileBody keyword condition body view s =>
    obtain ⟨⟨-, -, test, inside, -⟩, -⟩ := plain
    have tested := (condition.keeps_condition test).tree_behind tree reported
      (infix_bind_first (self _))
    exact ⟨tested.push _, ⟨inside, trivial⟩, excused⟩
  | lower keyword identifier equals toWord lower upper body view s =>
    obtain ⟨⟨-, -, -, -, first, -⟩, -⟩ := plain
    exact ⟨tree, ⟨first, trivial⟩, excused⟩
  | upper keyword identifier equals toWord lower upper body view s =>
    obtain ⟨⟨-, -, -, -, first, -, last, -⟩, -⟩ := plain
    have behind := (lower.keeps_bound first).tree_behind tree reported
      (infix_bind_first (self _))
    exact ⟨behind, ⟨last, trivial⟩, excused⟩
  | forBody keyword identifier equals toWord lower upper body view s =>
    obtain ⟨⟨-, -, -, -, first, -, last, inside, -⟩, -⟩ := plain
    have behind := (lower.keeps_bound first).tree_behind tree reported
      (infix_bind_first (self _))
    have behind' := (upper.keeps_bound last).tree_behind behind reported
      (infix_bind_second (infix_bind_first (self _)))
    exact ⟨contained_counting behind' identifier, ⟨inside, trivial⟩, excused⟩
  | inner inner view s =>
    obtain ⟨⟨-, inside, -⟩, -⟩ := plain
    exact ⟨tree, ⟨inside, trivial⟩, excused⟩
  | firstStmt first ss view s => exact ⟨tree, ⟨plain.1, trivial⟩, excused⟩
  | otherStmts first ss view s =>
    have behind := (first.keeps_resolve plain.1).tree_behind tree reported
      (infix_bind_first (self _))
    exact ⟨behind, plain.2, excused⟩

/-- Types are contained everywhere inside a place if they are at the place. -/
theorem Meets.contained (h : spot.Meets spot') (contained : spot.Contained faulty) :
    spot'.Contained faulty := by
  induction h with
  | refl => exact contained
  | tail _ inside ih => exact inside.contained ih

end Spot

/-! ### Chains of submissions -/

namespace Submission

open Reporting Syntax

/-- Chains of submissions, listed from the newest on, each of them compiled behind the
others from a text, whatever is wrong with that. -/
inductive FromTexts : List Submission → Prop where
  | nil : FromTexts []
  | cons {earlier : List Submission} (chain : FromTexts earlier) (nextId : Nat) (text : String) :
      FromTexts ((compile earlier nextId (.ofText text)).1 :: earlier)

/-- Something is wrong with a submission of the chain. -/
def Faulty (chain : List Submission) : Prop := ∃ s ∈ chain, s.diagnostics ≠ []

variable {faulty : Prop} {chain earlier : List Submission}

/-- What is wrong with a chain is wrong with a longer one. -/
theorem Faulty.cons (h : Faulty earlier) (s : Submission) : Faulty (s :: earlier) := by
  obtain ⟨t, ht, wrong⟩ := h
  exact ⟨t, List.mem_cons_of_mem s ht, wrong⟩

/-- Types are contained in the scopes around a submission if they are in the global scopes
of the submissions that it continues. -/
theorem contained_outerScopes (h : ∀ s ∈ earlier, ∀ v ∈ s.globals, v.type.Contained faulty) :
    (outerScopes earlier).1.Contained faulty := by
  induction earlier with
  | nil =>
    have root : ∀ s ∈ builtinScopes.scopes, s = ⟨none, [], Function.builtins⟩ := by decide
    constructor
    · intro s hs
      rw [root s hs]
      exact List.forall_mem_nil _
    · intro s hs f hf
      rwa [root s hs] at hf
  | cons newest older ih =>
    obtain ⟨first, others⟩ := List.forall_mem_cons.1 h
    exact ((ih others).push _).foldl_declareVariable first _

/-- Types are contained where a submission is resolved, if they are in the global scopes of
the submissions that it continues. -/
theorem contained_spot (h : ∀ s ∈ earlier, ∀ v ∈ s.globals, v.type.Contained faulty) (view : View)
    (nextId : Nat) (text : String)
    (excused : (compile earlier nextId (.ofText text)).1.diagnostics ≠ [] → faulty) :
    (spot earlier view nextId (.ofText text)).Contained faulty where
  tree := (contained_outerScopes h).push _
  plain := ⟨Source.plain_ofText text fun wrong =>
    excused (List.append_ne_nil_of_left_ne_nil wrong _), trivial⟩
  excused reported := excused (List.append_ne_nil_of_right_ne_nil _ reported)

/-- The global variables of a chain have types of values, unless something is wrong with
the chain. -/
theorem FromTexts.globals_contained (h : FromTexts chain) :
    ∀ s ∈ chain, ∀ v ∈ s.globals, v.type.Contained (Faulty chain) := by
  induction h with
  | nil => exact List.forall_mem_nil _
  | @cons earlier _ nextId text ih =>
    have older : ∀ s ∈ earlier, ∀ v ∈ s.globals, v.type.Contained
        (Faulty ((compile earlier nextId (.ofText text)).1 :: earlier)) :=
      fun s hs v hv => (ih s hs v hv).mono fun wrong => wrong.cons _
    have here := contained_spot older ⟨[], [], [], nextId⟩ nextId text fun wrong =>
      ⟨_, List.mem_cons_self, wrong⟩
    have globals := here.behind.varsIn (outerScopes earlier).1.size
    exact List.forall_mem_cons.2 ⟨globals, older⟩

/-- Types without values stay contained. Behind any chain of submissions, whatever is wrong
with their texts or with a further one, the bound tree of the further one has values
wherever they are required, and the whole of an expression statement has one unless it is a
call. Wherever the tree is resolved and behind every part of it, the variables in all scopes
are truth values, integers, texts or without meaning, and the last only if something is
wrong with this submission or an earlier one. No report names the type of a call made for
its effect alone or of what has no meaning. -/
theorem types_stay_contained (h : FromTexts earlier) (view : View) (nextId : Nat)
    (text : String) :
    let s := (compile earlier nextId (.ofText text)).1
    (∀ part ∈ s.statement.parts, (∀ e ∈ part.values, e.type ≠ .void) ∧
      ∀ e, part = .expression e → e.type = .void → ∃ f arguments, e = .call f arguments) ∧
    (∀ met, (spot earlier view nextId (.ofText text)).Meets met →
      ∀ state ∈ [met.state, met.behind], ∀ scope ∈ state.tree.scopes, ∀ v ∈ scope.vars,
        v.type ∈ [.bool, .int, .string, .error] ∧
        (v.type = .error → ∃ t ∈ s :: earlier, t.diagnostics ≠ [])) ∧
    ∀ d ∈ s.diagnostics, ∀ type ∈ d.problem.types, type ≠ .void ∧ type ≠ .error := by
  intro s
  have older : ∀ t ∈ earlier, ∀ v ∈ t.globals, v.type.Contained (Faulty (s :: earlier)) :=
    fun t ht v hv => (h.globals_contained t ht v hv).mono fun wrong => wrong.cons s
  have here : (spot earlier view nextId (.ofText text)).Contained (Faulty (s :: earlier)) :=
    contained_spot older view nextId text fun wrong => ⟨s, List.mem_cons_self, wrong⟩
  have kept := Stmt.keeps_resolve _ here.plain.1 _ here.tree here.excused
  refine ⟨fun part hpart => ?_, fun met meets => ?_, ?_⟩
  · have contained : part.Contained (Faulty (s :: earlier)) := kept.value part hpart
    exact ⟨fun e he => (contained.values e he).ne_void, contained.call_of_void⟩
  · have there := meets.contained here
    have scopes : ∀ state ∈ [met.state, met.behind],
        state.tree.Contained (Faulty (s :: earlier)) :=
      List.forall_mem_cons.2 ⟨there.tree, List.forall_mem_singleton.2 there.behind⟩
    intro state hstate scope hscope v hv
    have contained := (scopes state hstate).vars scope hscope v hv
    refine ⟨?_, contained.faulty_of_error⟩
    have ne_void := contained.ne_void
    cases type : v.type with
    | void => exact absurd type ne_void
    | bool | int | string | error => simp
  · exact List.forall_mem_append.2 ⟨Source.namesValues_ofText text, kept.reports⟩

/-- A submission that declares a variable without meaning, as its text ends too early. -/
def endingSample : Submission := (compile [] 0 (.ofText "var e = ")).1

/-- A text without problems of its own that goes on with that variable. -/
def goingOnSample : Source := .ofText "\x7b print(\"a\") f = e + 1 \x7d"

/-- The text is resolved without a report. A call is made for its effect alone as a whole
statement, and a variable without meaning is declared: something is wrong with the earlier
submission. -/
theorem types_stay_contained_goingOnSample :
    FromTexts [endingSample] ∧
      (compile [endingSample] 1 goingOnSample).1.diagnostics = [] ∧
      (compile [endingSample] 1 goingOnSample).1.statement =
        .block [.expression (.call .print [.literal (.string "a")]),
          .expression (.assignment ⟨1, "f", .error, false⟩ .error)] ∧
      ∃ t ∈ [(compile [endingSample] 1 goingOnSample).1, endingSample], t.diagnostics ≠ [] := by
  have chain : FromTexts [endingSample] := .cons .nil 0 "var e = "
  have contained := types_stay_contained chain ⟨[], [], [], 1⟩ 1 "\x7b print(\"a\") f = e + 1 \x7d"
  -- Behind the statements of the block, its scope holds the variable.
  have behind := contained.2.1 _ (.single (.block _ _ _ _ _)) _
    (List.mem_cons_of_mem _ List.mem_cons_self)
  have declared := behind ⟨some 2, [⟨1, "f", .error, false⟩], []⟩ (by decide +kernel)
    ⟨1, "f", .error, false⟩ List.mem_cons_self
  exact ⟨chain, by decide +kernel, rfl, declared.2 rfl⟩

end Submission

end Scriptlet
