import Mathlib.Data.List.TakeWhile
import Scriptlet.Syntax.Node

/-!
# Trees read back from depths

Nodes that are listed with their depths, parents before children, are read from the last
one to the first: a node takes for its children what stands deeper right behind it. So
the list in preorder determines the tree, whatever the nodes are.
-/

namespace Scriptlet.Syntax

/-- What a printed tree shows of a node: its label, and the same of its children. -/
inductive Outline where
  | entry (label : List Char) (children : List Outline)

mutual

/-- What is shown of a node. -/
def Node.outline : Node → Outline
  | .leaf token => .entry token.label.toList []
  | .branch name _ children => .entry name.toList (Node.outlines children)

/-- What is shown of a row of nodes. -/
def Node.outlines : List Node → List Outline
  | [] => []
  | node :: nodes => node.outline :: Node.outlines nodes

end

namespace Outline

/-- Puts a node in front of trees, each of which has its depth: those right behind it that
stand deeper are its children. -/
def grow (depth : Nat) (label : List Char) (trees : List (Nat × Outline)) :
    List (Nat × Outline) :=
  (depth, entry label ((trees.takeWhile fun tree => depth < tree.1).map Prod.snd)) ::
    trees.dropWhile fun tree => depth < tree.1

/-- The trees of a list of labels with their depths, each tree with the depth of its root. -/
def trees : List (Nat × List Char) → List (Nat × Outline)
  | [] => []
  | (depth, label) :: entries => grow depth label (trees entries)

/-- The tree of a list of labels with their depths. -/
def ofEntries? (entries : List (Nat × List Char)) : Option Outline :=
  (trees entries).head?.map Prod.snd

/-- The first tree has the depth of the first entry. -/
theorem head?_trees {depth : Nat} {entries : List (Nat × List Char)}
    (ends : ∀ e ∈ entries.head?, e.1 ≤ depth) :
    ∀ tree ∈ (trees entries).head?, tree.1 ≤ depth := by
  cases entries with
  | nil => exact nofun
  | cons e entries =>
    intro tree htree
    obtain rfl := Option.some.inj htree
    exact ends e rfl

/-- A node takes all trees that stand deeper, up to the first one that does not. -/
theorem grow_append {depth : Nat} {inner others : List (Nat × Outline)}
    (deeper : ∀ tree ∈ inner, depth < tree.1) (ends : ∀ tree ∈ others.head?, tree.1 ≤ depth)
    (label : List Char) :
    grow depth label (inner ++ others) = (depth, entry label (inner.map Prod.snd)) :: others := by
  have stops : (others.takeWhile fun tree => decide (depth < tree.1)) = [] ∧
      (others.dropWhile fun tree => decide (depth < tree.1)) = others := by
    cases others with
    | nil => exact ⟨rfl, rfl⟩
    | cons tree others =>
      have here := ends tree rfl
      simp [Nat.not_lt.2 here]
  have all : ∀ tree ∈ inner, decide (depth < tree.1) = true := by simpa using deeper
  rw [grow, List.takeWhile_append_of_pos all, List.dropWhile_append_of_pos all, stops.1, stops.2,
    List.append_nil]

end Outline

namespace Node

open Outline

/-- What the line of a node tells. -/
def entry (e : Nat × Node) : Nat × List Char := (e.1, e.2.label.toList)

/-- A row of nodes in front of others that stand no deeper begins no deeper. -/
theorem head?_preorderOfAll {depth : Nat} {entries : List (Nat × List Char)}
    (ends : ∀ e ∈ entries.head?, e.1 ≤ depth) (nodes : List Node) :
    ∀ e ∈ ((preorderOfAll depth nodes).map entry ++ entries).head?, e.1 ≤ depth := by
  cases nodes with
  | nil => exact ends
  | cons node nodes =>
    cases node <;> simp [preorderOfAll, preorder, entry]

mutual

/-- A node that is listed with all below it, in front of what stands no deeper, is read
back. -/
theorem trees_preorder (depth : Nat) (node : Node) (entries : List (Nat × List Char))
    (ends : ∀ e ∈ entries.head?, e.1 ≤ depth) :
    trees ((node.preorder depth).map entry ++ entries) =
      (depth, node.outline) :: trees entries := by
  have others := head?_trees ends
  cases node with
  | leaf token =>
    have none : ∀ tree ∈ ([] : List (Nat × Outline)), depth < tree.1 := List.forall_mem_nil _
    exact grow_append none others _
  | branch name span children =>
    have below := trees_preorderOfAll (depth + 1) children entries fun e he =>
      Nat.le_succ_of_le (ends e he)
    have deeper : ∀ tree ∈ (outlines children).map (depth + 1, ·), depth < tree.1 := by
      intro tree htree
      obtain ⟨outline, -, rfl⟩ := List.mem_map.1 htree
      exact Nat.lt_succ_self depth
    rw [preorder, List.map_cons, List.cons_append, entry, trees, below,
      grow_append deeper others, List.map_map]
    simp [Function.comp_def, outline, label]

/-- A row of nodes that are listed with all below them, in front of what stands no deeper,
is read back. -/
theorem trees_preorderOfAll (depth : Nat) (nodes : List Node) (entries : List (Nat × List Char))
    (ends : ∀ e ∈ entries.head?, e.1 ≤ depth) :
    trees ((preorderOfAll depth nodes).map entry ++ entries) =
      (outlines nodes).map (depth, ·) ++ trees entries := by
  cases nodes with
  | nil => rfl
  | cons node nodes =>
    have first := trees_preorder depth node ((preorderOfAll depth nodes).map entry ++ entries)
      (head?_preorderOfAll ends nodes)
    rw [preorderOfAll, List.map_append, List.append_assoc, first,
      trees_preorderOfAll depth nodes entries ends]
    rfl

end

/-- A tree is read back from its nodes, listed with their depths. -/
theorem ofEntries?_preorder (node : Node) :
    ofEntries? ((node.preorder 0).map entry) = some node.outline := by
  have read := trees_preorder 0 node [] nofun
  rw [List.append_nil] at read
  rw [ofEntries?, read]
  rfl

end Node

end Scriptlet.Syntax
