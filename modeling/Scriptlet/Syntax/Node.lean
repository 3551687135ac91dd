import Scriptlet.Syntax.Tree

/-!
# The uniform view of a syntax tree

For printing and walking, a tree of any sort is a tree of named branches over
tokens, its children in the order of the source. The printed form has one line
for every node, drawn with guides that show its depth.
-/

namespace Scriptlet.Syntax

/-- A node of a syntax tree, whatever its sort. -/
inductive Node where
  /-- A token has no children. -/
  | leaf (token : Token)
  /-- A statement, an expression or the whole submission. -/
  | branch (name : String) (span : Span) (children : List Node)
  deriving Repr, Inhabited

namespace Node

/-- The place of a node. -/
def span : Node → Span
  | leaf token => token.span
  | branch _ span _ => span

/-- The children of a node, in source order. -/
def children : Node → List Node
  | leaf _ => []
  | branch _ _ children => children

/-- The name of a node's sort; a token has that of its kind. -/
def name : Node → String
  | leaf token => token.kind.name
  | branch name _ _ => name

/-- What the line of a node says behind its guides. -/
def label : Node → String
  | leaf token => token.label
  | branch name _ _ => name

mutual

/-- The tokens below a node, from left to right. -/
def leaves : Node → List Token
  | leaf token => [token]
  | branch _ _ children => leavesOfAll children

/-- The tokens below a row of nodes, from left to right. -/
def leavesOfAll : List Node → List Token
  | [] => []
  | node :: rest => node.leaves ++ leavesOfAll rest

end

mutual

/-- Every node at or below a node with its depth, parents before children. -/
def preorder (depth : Nat) : Node → List (Nat × Node)
  | leaf token => [(depth, leaf token)]
  | branch name span children =>
    (depth, branch name span children) :: preorderOfAll (depth + 1) children

/-- Every node at or below a row of nodes with its depth. -/
def preorderOfAll (depth : Nat) : List Node → List (Nat × Node)
  | [] => []
  | node :: rest => node.preorder depth ++ preorderOfAll depth rest

end

mutual

/-- A property holds of a node and of every node below it. -/
def Every (P : Node → Prop) : Node → Prop
  | leaf token => P (leaf token)
  | branch name span children => P (branch name span children) ∧ AllEvery P children

/-- A property holds of some nodes and of every node below them. -/
def AllEvery (P : Node → Prop) : List Node → Prop
  | [] => True
  | node :: nodes => node.Every P ∧ AllEvery P nodes

end

mutual

/-- A property holds of every node if it holds of all that are met in preorder. -/
theorem every_iff {P : Node → Prop} (depth : Nat) (node : Node) :
    node.Every P ↔ ∀ entry ∈ node.preorder depth, P entry.2 := by
  cases node with
  | leaf token => simp [Every, preorder]
  | branch name span children => simp [Every, preorder, allEvery_iff (depth + 1) children]

/-- A property holds of every node of a row if it holds of all that are met in
preorder. -/
theorem allEvery_iff {P : Node → Prop} (depth : Nat) (nodes : List Node) :
    AllEvery P nodes ↔ ∀ entry ∈ preorderOfAll depth nodes, P entry.2 := by
  cases nodes with
  | nil => simp [AllEvery, preorderOfAll]
  | cons node nodes =>
    rw [AllEvery, preorderOfAll, List.forall_mem_append, every_iff depth node,
      allEvery_iff depth nodes]

end

/-- A property holds of every node of two rows if it does of the first and of the
second. -/
@[simp] theorem allEvery_append {P : Node → Prop} (nodes nodes' : List Node) :
    AllEvery P (nodes ++ nodes') ↔ AllEvery P nodes ∧ AllEvery P nodes' := by
  induction nodes with
  | nil => simp [AllEvery]
  | cons node nodes ih => simp [AllEvery, ih, and_assoc]

/-- A property that holds of a node and of all below it holds of the node. -/
theorem Every.self {P : Node → Prop} {node : Node} (h : node.Every P) : P node := by
  cases node with
  | leaf token => exact h
  | branch name span children => exact h.1

/-- A property holds of every node of a row if it does of each of its nodes and of
all below them. -/
theorem allEvery_iff_forall_mem {P : Node → Prop} {nodes : List Node} :
    AllEvery P nodes ↔ ∀ node ∈ nodes, node.Every P := by
  induction nodes with
  | nil => simp [AllEvery]
  | cons node nodes ih => simp [AllEvery, ih]

mutual

/-- The lines of a node and of all below it. The guides of the enclosing nodes
come first, then a corner that tells whether a sibling follows. -/
def lines (guides : String) (isLast : Bool) : Node → List String
  | leaf token => [guides ++ (if isLast then "└──" else "├──") ++ token.label]
  | branch name _ children =>
    (guides ++ (if isLast then "└──" else "├──") ++ name) ::
      linesOfAll (guides ++ if isLast then "   " else "│  ") children

/-- The lines of a row of siblings. -/
def linesOfAll (guides : String) : List Node → List String
  | [] => []
  | node :: rest => node.lines guides rest.isEmpty ++ linesOfAll guides rest

end

/-- The printed form of a tree: its root bare, all else behind guides, a line
feed at the end of every line. -/
def render (root : Node) : String :=
  String.join ((root.label :: linesOfAll "" root.children).map (· ++ "\n"))

end Node

mutual

/-- An expression as a node. -/
def Expr.node : Expr → Node
  | .literal token => .branch "LiteralExpression" token.span [.leaf token]
  | .name identifier => .branch "NameExpression" identifier.span [.leaf identifier]
  | .assignment identifier equals value =>
    .branch "AssignmentExpression" (Expr.assignment identifier equals value).span
      [.leaf identifier, .leaf equals, value.node]
  | .unary operator operand =>
    .branch "UnaryExpression" (Expr.unary operator operand).span [.leaf operator, operand.node]
  | .binary left operator right =>
    .branch "BinaryExpression" (Expr.binary left operator right).span
      [left.node, .leaf operator, right.node]
  | .grouped opening inner closing =>
    .branch "ParenthesizedExpression" (Expr.grouped opening inner closing).span
      [.leaf opening, inner.node, .leaf closing]
  | .call identifier opening arguments closing =>
    .branch "CallExpression" (Expr.call identifier opening arguments closing).span
      (.leaf identifier :: .leaf opening :: (Expr.nodes arguments ++ [.leaf closing]))

/-- A row of expressions as nodes. -/
def Expr.nodes : List Expr → List Node
  | [] => []
  | e :: es => e.node :: Expr.nodes es

end

mutual

/-- A statement as a node. -/
def Stmt.node : Stmt → Node
  | .block opening statements closing =>
    .branch "BlockStatement" (Stmt.block opening statements closing).span
      (.leaf opening :: (Stmt.nodes statements ++ [.leaf closing]))
  | .declaration keyword identifier equals initializer =>
    .branch "VariableDeclaration" (Stmt.declaration keyword identifier equals initializer).span
      [.leaf keyword, .leaf identifier, .leaf equals, initializer.node]
  | .ifThen keyword condition consequence =>
    .branch "IfStatement" (Stmt.ifThen keyword condition consequence).span
      [.leaf keyword, condition.node, consequence.node]
  | .ifElse keyword condition consequence elseWord alternative =>
    .branch "IfStatement" (Stmt.ifElse keyword condition consequence elseWord alternative).span
      [.leaf keyword, condition.node, consequence.node, .leaf elseWord, alternative.node]
  | .whileLoop keyword condition body =>
    .branch "WhileStatement" (Stmt.whileLoop keyword condition body).span
      [.leaf keyword, condition.node, body.node]
  | .forLoop keyword identifier equals lower toWord upper body =>
    .branch "ForStatement" (Stmt.forLoop keyword identifier equals lower toWord upper body).span
      [.leaf keyword, .leaf identifier, .leaf equals, lower.node, .leaf toWord, upper.node,
        body.node]
  | .expression inner => .branch "ExpressionStatement" inner.span [inner.node]

/-- A row of statements as nodes. -/
def Stmt.nodes : List Stmt → List Node
  | [] => []
  | s :: ss => s.node :: Stmt.nodes ss

end

/-- A submission as a node. -/
def Script.node (s : Script) : Node :=
  .branch "CompilationUnit" s.span [s.statement.node, .leaf s.endOfFile]

/-- The place of a token as a node is its place. -/
@[simp] theorem Node.span_leaf (token : Token) : (Node.leaf token).span = token.span := rfl

@[simp] theorem Expr.span_node (e : Expr) : e.node.span = e.span := by
  cases e <;> rfl

@[simp] theorem Stmt.span_node (s : Stmt) : s.node.span = s.span := by
  cases s <;> rfl

@[simp] theorem Script.span_node (s : Script) : s.node.span = s.span := rfl

end Scriptlet.Syntax
