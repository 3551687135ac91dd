import Mathlib.Data.List.Forall2
import Scriptlet.Proofs.Drawing.Outlines
import Scriptlet.Proofs.Lines.Splitting

/-!
# Guides tell depths

The printed form of a tree has an entry for every node in preorder: three guides for each
step down from the root, then the label of the node. No label begins with a guide, so the
guides can be counted. If no label holds a line feed, the entries are the lines of the text
and the tree is read back from these.
-/

namespace Scriptlet

namespace Text

/-- A text in front of a line feed has one line more than line feeds of its own. -/
theorem length_lines_lineFeed (text rest : List Char) :
    (lines (text ++ '\n' :: rest)).length = text.count '\n' + 1 + (lines rest).length := by
  induction text using lines_induction with
  | nil => rw [lines_append_lineFeed List.not_mem_nil, List.length_cons, List.count_nil]; omega
  | last line inLine _ =>
    rw [lines_append_lineFeed inLine, List.length_cons, List.count_eq_zero.2 inLine]
    omega
  | front line text inLine ih =>
    rw [List.append_assoc, List.cons_append, lines_append_lineFeed inLine, List.length_cons, ih,
      List.count_append, List.count_cons_self, List.count_eq_zero.2 inLine]
    omega

variable {entries : List (List Char)}

/-- Entries with a line feed behind each of them have as many lines as there are entries only
if no entry holds a line feed. -/
theorem length_lines_eq_iff : (lines (entries.flatMap (· ++ ['\n']))).length = entries.length ↔
    ∀ entry ∈ entries, '\n' ∉ entry := by
  have counted : (lines (entries.flatMap (· ++ ['\n']))).length =
      entries.length + (entries.map (List.count '\n')).sum := by
    induction entries with
    | nil => rfl
    | cons entry entries ih =>
      rw [List.flatMap_cons, List.append_assoc, List.singleton_append, length_lines_lineFeed, ih,
        List.length_cons, List.map_cons, List.sum_cons]
      omega
  rw [counted, Nat.add_eq_left, List.sum_eq_zero_iff_forall_eq_nat]
  simp [List.count_eq_zero]

/-- Entries without line feeds are the lines of their text. -/
theorem lines_flatMap (unfed : ∀ entry ∈ entries, '\n' ∉ entry) :
    lines (entries.flatMap (· ++ ['\n'])) = entries.map (· ++ ['\n']) := by
  induction entries with
  | nil => rfl
  | cons entry entries ih =>
    obtain ⟨here, others⟩ := List.forall_mem_cons.1 unfed
    rw [List.flatMap_cons, List.append_assoc, List.singleton_append, lines_append_lineFeed here,
      ih others, List.map_cons]

end Text

namespace Syntax.Node

/-- The characters with which the depth of a node is drawn. -/
def isGuide (c : Char) : Bool := ['│', '├', '└', '─', ' '].contains c

/-- The text is made of guides, three for each step down to a depth. -/
structure Guides (depth : Nat) (text : List Char) : Prop where
  length : text.length = 3 * depth
  drawn : ∀ c ∈ text, isGuide c = true

/-- A line draws a node at a depth: three guides for each step down, then the label. -/
def Draws (e : Nat × Node) (line : String) : Prop :=
  ∃ guides, line.toList = guides ++ e.2.label.toList ∧ Guides e.1 guides

/-- The entries of a printed tree, one for each node. -/
def drawing (root : Node) : List String := root.label :: linesOfAll "" root.children

/-- A printed tree consists of its entries. -/
theorem toList_render (root : Node) :
    root.render.toList = (root.drawing.map String.toList).flatMap (· ++ ['\n']) := by
  simp [render, drawing, String.toList_join, List.flatMap_map]

/-- Reads a line: how deep it stands, and what it says behind its guides. -/
def readLine (line : List Char) : Nat × List Char :=
  ((line.takeWhile isGuide).length / 3, (line.dropWhile isGuide).dropLast)

/-- Three more guides are those of the next depth. -/
theorem Guides.append {depth : Nat} {guides more : String} (h : Guides depth guides.toList)
    (three : Guides 1 more.toList) : Guides (depth + 1) (guides ++ more).toList := by
  rw [String.toList_append]
  refine ⟨?_, List.forall_mem_append.2 ⟨h.drawn, three.drawn⟩⟩
  rw [List.length_append, h.length, three.length, Nat.mul_add]

/-- A corner is made of three guides, whether a sibling follows or not. -/
theorem guides_corner (isLast : Bool) : Guides 1 (if isLast then "└──" else "├──").toList := by
  cases isLast <;> exact ⟨rfl, List.all_eq_true.1 rfl⟩

/-- What stands below a corner is made of three guides, whether a sibling follows or not. -/
theorem guides_below (isLast : Bool) : Guides 1 (if isLast then "   " else "│  ").toList := by
  cases isLast <;> exact ⟨rfl, List.all_eq_true.1 rfl⟩

mutual

/-- The lines of a node and of all below it draw them in preorder. -/
theorem draws_lines {depth : Nat} {guides : String} (h : Guides depth guides.toList)
    (isLast : Bool) (node : Node) :
    List.Forall₂ Draws (node.preorder (depth + 1)) (node.lines guides isLast) := by
  have corner := h.append (guides_corner isLast)
  cases node with
  | leaf token => exact .cons ⟨_, String.toList_append, corner⟩ .nil
  | branch name span children =>
    exact .cons ⟨_, String.toList_append, corner⟩
      (draws_linesOfAll (h.append (guides_below isLast)) children)

/-- The lines of a row of nodes and of all below them draw them in preorder. -/
theorem draws_linesOfAll {depth : Nat} {guides : String} (h : Guides depth guides.toList)
    (nodes : List Node) :
    List.Forall₂ Draws (preorderOfAll (depth + 1) nodes) (linesOfAll guides nodes) := by
  cases nodes with
  | nil => exact .nil
  | cons node nodes => exact List.rel_append (draws_lines h _ node) (draws_linesOfAll h nodes)

end

/-- The entries of a printed tree draw its nodes in preorder. -/
theorem draws_drawing (root : Node) : List.Forall₂ Draws (root.preorder 0) root.drawing := by
  have none : Guides 0 "".toList := ⟨rfl, List.forall_mem_nil _⟩
  have bare : Draws (0, root) root.label := ⟨[], rfl, none⟩
  cases root with
  | leaf token => exact .cons bare .nil
  | branch name span children => exact .cons bare (draws_linesOfAll none children)

/-- What draws a node holds a line feed only if the label does. -/
theorem Draws.lineFeed_mem_iff {e : Nat × Node} {line : String} (h : Draws e line) :
    '\n' ∈ line.toList ↔ '\n' ∈ e.2.label.toList := by
  obtain ⟨guides, split, drawn⟩ := h
  rw [split, List.mem_append, or_iff_right]
  exact fun fed => absurd (drawn.drawn '\n' fed) (by decide)

/-- What draws a node whose label begins with no guide tells its depth and its label. -/
theorem Draws.readLine_eq {e : Nat × Node} {line : String} (h : Draws e line)
    (begins : ∀ c ∈ e.2.label.toList.head?, isGuide c = false) :
    readLine (line.toList ++ ['\n']) = entry e := by
  obtain ⟨guides, split, drawn⟩ := h
  have ends : (e.2.label.toList ++ ['\n']).takeWhile isGuide = [] ∧
      (e.2.label.toList ++ ['\n']).dropWhile isGuide = e.2.label.toList ++ ['\n'] := by
    cases label : e.2.label.toList with
    | nil => decide
    | cons c cs =>
      rw [label] at begins
      simp [begins c rfl]
  rw [readLine, split, List.append_assoc, List.takeWhile_append_of_pos drawn.drawn,
    List.dropWhile_append_of_pos drawn.drawn, ends.1, ends.2, List.append_nil, drawn.length,
    Nat.mul_div_cancel_left e.1 (by decide), List.dropLast_concat]
  rfl

variable {nodes : List (Nat × Node)} {drawn : List String}

/-- Lines that draw nodes hold line feeds only if the labels do. -/
theorem forall_unfed_iff (draws : List.Forall₂ Draws nodes drawn) :
    (∀ line ∈ drawn, '\n' ∉ line.toList) ↔ ∀ e ∈ nodes, '\n' ∉ e.2.label.toList := by
  induction draws with
  | nil => simp
  | cons here _ ih => rw [List.forall_mem_cons, List.forall_mem_cons, here.lineFeed_mem_iff, ih]

/-- Lines that draw nodes, none with a guide at the beginning of its label, tell the depths and
the labels. -/
theorem map_readLine (draws : List.Forall₂ Draws nodes drawn)
    (begins : ∀ e ∈ nodes, ∀ c ∈ e.2.label.toList.head?, isGuide c = false) :
    drawn.map (fun line => readLine (line.toList ++ ['\n'])) = nodes.map entry := by
  induction draws with
  | nil => rfl
  | cons here _ ih =>
    obtain ⟨first, others⟩ := List.forall_mem_cons.1 begins
    rw [List.map_cons, List.map_cons, here.readLine_eq first, ih others]

/-- A printed tree has as many lines as there are nodes only if no label holds a line
feed. -/
theorem length_lines_render_iff (root : Node) :
    (Text.lines root.render.toList).length = (root.preorder 0).length ↔
      ∀ e ∈ root.preorder 0, '\n' ∉ e.2.label.toList := by
  have draws := root.draws_drawing
  have same : (root.preorder 0).length = (root.drawing.map String.toList).length := by
    rw [draws.length_eq, List.length_map]
  rw [toList_render, same, Text.length_lines_eq_iff, List.forall_mem_map, forall_unfed_iff draws]

/-- If no label holds a line feed and none begins with a guide, each line of a printed tree
tells the depth and the label of its node. -/
theorem readLine_lines_render (root : Node)
    (unfed : ∀ e ∈ root.preorder 0, '\n' ∉ e.2.label.toList)
    (begins : ∀ e ∈ root.preorder 0, ∀ c ∈ e.2.label.toList.head?, isGuide c = false) :
    (Text.lines root.render.toList).map readLine = (root.preorder 0).map entry := by
  have draws := root.draws_drawing
  have whole : ∀ line ∈ root.drawing.map String.toList, '\n' ∉ line :=
    List.forall_mem_map.2 ((forall_unfed_iff draws).2 unfed)
  rw [toList_render, Text.lines_flatMap whole, List.map_map, List.map_map]
  exact map_readLine draws begins

end Syntax.Node

end Scriptlet
