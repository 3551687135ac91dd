import Scriptlet.Proofs.Drawing.Guides
import Scriptlet.Proofs.Evaluation.Printed
import Scriptlet.Proofs.Parsing.Complete

/-!
# Labels of the nodes of a text

No label begins with a guide. The label of a token shows the value of a literal as a
program prints it, so it holds a line feed if and only if the token is a literal that
denotes a text with one. Where there is no such literal, a printed tree has one line for
each of its nodes and is read back from them.
-/

namespace Scriptlet

open Syntax.Node

/-- The token denotes a text that holds a line feed. -/
def Token.Feeds (t : Token) : Prop :=
  ∃ text : String, t.literal? = some (.string text) ∧ '\n' ∈ text.toList

/-- The token has no value if it is missing, and what it is made of holds no line feed if it
has no value. -/
structure Token.Unfed (t : Token) : Prop where
  missing : t.isMissing = true → t.literal? = none
  text : t.literal? = none → '\n' ∉ t.text.toList

namespace Syntax.Node

/-- A name holds no line feed and begins with something else than a guide. -/
def isPlain (name : String) : Bool :=
  !name.toList.contains '\n' && name.toList.head?.any fun c => !isGuide c

/-- A plain name holds no line feed and has a first character that is no guide. -/
theorem isPlain_iff {name : String} : isPlain name = true ↔
    '\n' ∉ name.toList ∧ ∃ c cs, name.toList = c :: cs ∧ isGuide c = false := by
  rw [isPlain]
  cases name.toList <;> simp

end Syntax.Node

/-- The names of all kinds are plain. -/
theorem Kind.isPlain_name (k : Kind) : isPlain k.name = true := by
  have names : ∀ k ∈ Kind.all, isPlain k.name = true := by decide
  exact names k k.mem_all

/-- No value but a text is printed with a line feed. -/
theorem Value.lineFeed_mem_display {v : Value} (h : '\n' ∈ v.display.toList) :
    ∃ text, v = .string text := by
  cases v with
  | string text => exact ⟨text, rfl⟩
  | void => exact absurd h (by decide)
  | bool b => cases b <;> exact absurd h (by decide)
  | int n =>
    rw [Value.toList_display_int, List.mem_append] at h
    rcases h with sign | digit
    · split at sign <;> simp at sign
    · exact absurd (Nat.isDigit_of_mem_toDigits (by decide) (by decide) digit) (by decide)

namespace Token

variable {t : Token}

/-- A token is displayed as the name of its kind and, at most, its text in parentheses. -/
theorem exists_display (t : Token) : ∃ more : String, t.display = t.kind.name ++ more ∧
    ('\n' ∈ more.toList → '\n' ∈ t.text.toList) := by
  have bare : ∃ more : String, t.kind.name = t.kind.name ++ more ∧
      ('\n' ∈ more.toList → '\n' ∈ t.text.toList) := ⟨"", by simp, nofun⟩
  have quoted : ∃ more : String, s!"{t.kind} ({t.text})" = t.kind.name ++ more ∧
      ('\n' ∈ more.toList → '\n' ∈ t.text.toList) :=
    ⟨" (" ++ t.text ++ ")", by simp [toString, String.append_assoc], by simp⟩
  unfold display
  split
  · exact quoted
  · exact quoted
  · exact quoted
  · exact bare

/-- A label is the name of the kind and what tells tokens of the kind apart. -/
theorem exists_label (t : Token) : ∃ more : String, t.label = t.kind.name ++ more ∧
    (t.Unfed → ('\n' ∈ more.toList ↔ t.Feeds)) := by
  -- Without a value the token denotes no text, so nothing may be told with a line feed.
  have tells {more : String} (valueless : t.literal? = none) (unfed : '\n' ∉ more.toList) :
      '\n' ∈ more.toList ↔ t.Feeds := by
    refine iff_of_false unfed ?_
    rintro ⟨text, value, -⟩
    simp [valueless] at value
  unfold label
  split
  next missing =>
    exact ⟨" (missing)", rfl, fun unfed => tells (unfed.missing missing) (by decide)⟩
  next =>
    split
    next value literal =>
      refine ⟨" " ++ value.display, by simp [toString, String.append_assoc], fun _ => ?_⟩
      rw [String.toList_append, List.mem_append, or_iff_right (by decide)]
      constructor
      · intro fed
        obtain ⟨text, rfl⟩ := Value.lineFeed_mem_display fed
        exact ⟨text, literal, fed⟩
      · rintro ⟨text, denoted, fed⟩
        obtain rfl := Option.some.inj (literal.symm.trans denoted)
        exact fed
    next valueless =>
      obtain ⟨more, display_eq, told⟩ := t.exists_display
      exact ⟨more, display_eq, fun unfed => tells valueless fun fed =>
        unfed.text valueless (told fed)⟩

/-- No label begins with a guide. -/
theorem head?_label (t : Token) : ∀ c ∈ t.label.toList.head?, isGuide c = false := by
  obtain ⟨more, label_eq, -⟩ := t.exists_label
  obtain ⟨-, c, cs, name, unguided⟩ := isPlain_iff.1 t.kind.isPlain_name
  intro d hd
  rw [label_eq, String.toList_append, name] at hd
  exact Option.some.inj hd ▸ unguided

/-- A label holds a line feed only if the token denotes a text that does. -/
theorem Unfed.lineFeed_mem_label_iff (h : t.Unfed) : '\n' ∈ t.label.toList ↔ t.Feeds := by
  obtain ⟨more, label_eq, fed⟩ := t.exists_label
  have named := (isPlain_iff.1 t.kind.isPlain_name).1
  rw [label_eq, String.toList_append, List.mem_append, or_iff_right named, fed h]

end Token

namespace Pattern

/-- A token that is made of a lexeme is there, and without a value it has no line feed. -/
theorem Lexeme.unfed {p : Pattern} {lexeme rest : List Char} {span : Span} {t : Token}
    (h : p.Lexeme lexeme rest) (made : p.token? lexeme span = some t) : t.Unfed := by
  obtain ⟨text, -, present⟩ := token?_eq_some made
  refine ⟨fun missing => by simp [present] at missing, fun valueless => ?_⟩
  rw [text]
  cases h with
  | blanks | comment => cases made
  | closedString | openString =>
    obtain rfl := Option.some.inj made
    cases valueless
  | @word c cs _ starts goesOn =>
    have first : '\n' ≠ c := by rintro rfl; exact absurd starts (by decide)
    exact List.not_mem_cons_of_ne_of_not_mem first fun fed => absurd (goesOn _ fed) (by decide)
  | @digits c cs _ starts goesOn =>
    have first : '\n' ≠ c := by rintro rfl; exact absurd starts (by decide)
    exact List.not_mem_cons_of_ne_of_not_mem first fun fed => absurd (goesOn _ fed) (by decide)
  | @fixed kind _ _ spelled =>
    have kinds : ∀ k ∈ Kind.all, ∀ text ∈ k.spelling?, '\n' ∉ text := by decide
    exact kinds kind kind.mem_all _ spelled

end Pattern

namespace Syntax

/-- The tokens of a scan are there and have no line feeds without a value. -/
theorem unfed_scanFrom (position : Nat) (cs : List Char) :
    ∀ t ∈ (Scan.scanFrom 0 position cs).tokens, t.Unfed := by
  induction position, cs using Scan.scanFrom_induction with
  | ends position => exact List.forall_mem_singleton.2 ⟨fun _ => rfl, fun _ => List.not_mem_nil⟩
  | stray position c cs _ ih => exact ih
  | front position p lexeme rest isLexeme _ ih =>
    exact List.forall_mem_append.2
      ⟨fun t made => isLexeme.unfed (Option.mem_toList.1 made), ih⟩

/-- A missing token has no value and no text. -/
theorem unfed_missing (kind : Kind) (position : Nat) : (Token.missing kind position).Unfed :=
  ⟨fun _ => rfl, fun _ => List.not_mem_nil⟩

/-- The leaves of a text have no line feeds without a value, be they in the text or missing. -/
theorem Source.unfed_leaves (text : String) :
    ∀ t ∈ (ofText text).script.node.leaves, t.Unfed := by
  intro t ht
  rcases mem_leaves_parse (whole_tokenize text) ht with scanned | ⟨kind, position, rfl⟩
  · exact unfed_scanFrom 0 text.toList t scanned
  · exact unfed_missing kind position

/-! ### The names of branches -/

namespace Node

/-- The name of a branch is plain. -/
def Titled : Node → Prop
  | leaf _ => True
  | branch name _ _ => isPlain name = true

end Node

mutual

/-- Every branch of an expression has a plain name. -/
theorem Expr.every_titled (e : Expr) : e.node.Every Titled := by
  cases e with
  | literal token | name identifier => exact ⟨rfl, trivial, trivial⟩
  | assignment identifier equals value =>
    exact ⟨rfl, trivial, trivial, value.every_titled, trivial⟩
  | unary operator operand => exact ⟨rfl, trivial, operand.every_titled, trivial⟩
  | binary left operator right =>
    exact ⟨rfl, left.every_titled, trivial, right.every_titled, trivial⟩
  | grouped opening inner closing =>
    exact ⟨rfl, trivial, inner.every_titled, trivial, trivial⟩
  | call identifier opening arguments closing =>
    refine ⟨rfl, trivial, trivial, (allEvery_append _ _).2 ⟨?_, trivial, trivial⟩⟩
    exact Expr.allEvery_titled arguments

/-- Every branch of some expressions has a plain name. -/
theorem Expr.allEvery_titled (es : List Expr) : AllEvery Titled (Expr.nodes es) := by
  cases es with
  | nil => trivial
  | cons e es => exact ⟨e.every_titled, Expr.allEvery_titled es⟩

end

mutual

/-- Every branch of a statement has a plain name. -/
theorem Stmt.every_titled (s : Stmt) : s.node.Every Titled := by
  cases s with
  | block opening statements closing =>
    refine ⟨rfl, trivial, (allEvery_append _ _).2 ⟨?_, trivial, trivial⟩⟩
    exact Stmt.allEvery_titled statements
  | declaration keyword identifier equals initializer =>
    exact ⟨rfl, trivial, trivial, trivial, initializer.every_titled, trivial⟩
  | ifThen keyword condition consequence =>
    exact ⟨rfl, trivial, condition.every_titled, consequence.every_titled, trivial⟩
  | ifElse keyword condition consequence elseWord alternative =>
    exact ⟨rfl, trivial, condition.every_titled, consequence.every_titled, trivial,
      alternative.every_titled, trivial⟩
  | whileLoop keyword condition body =>
    exact ⟨rfl, trivial, condition.every_titled, body.every_titled, trivial⟩
  | forLoop keyword identifier equals lower toWord upper body =>
    exact ⟨rfl, trivial, trivial, trivial, lower.every_titled, trivial, upper.every_titled,
      body.every_titled, trivial⟩
  | expression inner => exact ⟨rfl, inner.every_titled, trivial⟩

/-- Every branch of some statements has a plain name. -/
theorem Stmt.allEvery_titled (ss : List Stmt) : AllEvery Titled (Stmt.nodes ss) := by
  cases ss with
  | nil => trivial
  | cons s ss => exact ⟨s.every_titled, Stmt.allEvery_titled ss⟩

end

/-- Every branch of a submission has a plain name. -/
theorem Script.every_titled (s : Script) : s.node.Every Titled :=
  ⟨rfl, s.statement.every_titled, trivial, trivial⟩

namespace Node

/-- No label of a node with a plain name begins with a guide. -/
theorem Titled.head?_label {node : Node} (h : node.Titled) :
    ∀ c ∈ node.label.toList.head?, isGuide c = false := by
  cases node with
  | leaf token => exact token.head?_label
  | branch name span children =>
    obtain ⟨-, c, cs, split, unguided⟩ := isPlain_iff.1 h
    rw [label, split]
    exact fun d hd => Option.some.inj hd ▸ unguided

mutual

/-- The labels of a tree whose branches have plain names hold line feeds only if those of its
leaves do. -/
theorem every_unfed_iff (node : Node) (titled : node.Every Titled) :
    node.Every (fun n => '\n' ∉ n.label.toList) ↔
      ∀ t ∈ node.leaves, '\n' ∉ t.label.toList := by
  cases node with
  | leaf token => simp [Every, leaves, label]
  | branch name span children =>
    have named : '\n' ∉ name.toList := (isPlain_iff.1 titled.1).1
    exact (and_iff_right named).trans (allEvery_unfed_iff children titled.2)

/-- The labels of a row of trees whose branches have plain names hold line feeds only if those
of their leaves do. -/
theorem allEvery_unfed_iff (nodes : List Node) (titled : AllEvery Titled nodes) :
    AllEvery (fun n => '\n' ∉ n.label.toList) nodes ↔
      ∀ t ∈ leavesOfAll nodes, '\n' ∉ t.label.toList := by
  cases nodes with
  | nil => exact iff_of_true trivial (List.forall_mem_nil _)
  | cons node nodes =>
    rw [AllEvery, every_unfed_iff node titled.1, allEvery_unfed_iff nodes titled.2, leavesOfAll,
      List.forall_mem_append]

end

end Node

/-- The printed tree of a text consists of an entry for every node in preorder, each with a line
feed behind it: three guides for each step down, then the label. There is one line for every node
if and only if no token denotes a text with a line feed, and then the lines are read back as the
nodes and these as the tree. -/
theorem Source.one_line_per_node_iff (text : String) :
    let source := ofText text
    let nodes := source.script.node.preorder 0
    let printed := Text.lines source.render.toList
    (∃ entries, List.Forall₂ Node.Draws nodes entries ∧
      source.render = String.join (entries.map (· ++ "\n"))) ∧
    (printed.length = nodes.length ↔ ∀ token ∈ source.script.node.leaves, ¬token.Feeds) ∧
    (printed.length = nodes.length →
      printed.map readLine = nodes.map entry ∧
      Outline.ofEntries? (printed.map readLine) = some source.script.node.outline) := by
  intro source nodes printed
  have titled := source.script.every_titled
  have begins : ∀ e ∈ nodes, ∀ c ∈ e.2.label.toList.head?, isGuide c = false :=
    fun e he => ((every_iff 0 _).1 titled e he).head?_label
  refine ⟨⟨_, source.script.node.draws_drawing, rfl⟩, ?_, fun same => ?_⟩
  · calc printed.length = nodes.length
        ↔ ∀ e ∈ nodes, '\n' ∉ e.2.label.toList := source.script.node.length_lines_render_iff
      _ ↔ ∀ t ∈ source.script.node.leaves, '\n' ∉ t.label.toList :=
        (every_iff 0 _).symm.trans (every_unfed_iff _ titled)
      _ ↔ ∀ t ∈ source.script.node.leaves, ¬t.Feeds :=
        forall₂_congr fun t ht => not_congr (unfed_leaves text t ht).lineFeed_mem_label_iff
  · have unfed := source.script.node.length_lines_render_iff.1 same
    have read : printed.map readLine = nodes.map entry :=
      source.script.node.readLine_lines_render unfed begins
    refine ⟨read, ?_⟩
    rw [read]
    exact source.script.node.ofEntries?_preorder

/-- The five nodes of a literal that denotes a text of two lines take six lines. -/
example : (Text.lines (Source.ofText "\"a\\nb\"").render.toList).length = 6 := by
  decide +kernel

end Syntax

end Scriptlet
