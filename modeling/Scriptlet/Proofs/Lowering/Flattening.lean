import Mathlib.Algebra.Ring.Nat
import Scriptlet.Proofs.Lowering.Layout

/-!
# What lowering keeps and what it adds

The code of a statement has no statements inside others. It consists of the
declarations and expressions of the statement in their order, of a jump for
every test in it and of jumps and labels around them. Counting loops add a
declaration and a step of their own. Jumps go to labels of the same code, and
code that is lowered again stays as it is.
-/

namespace Scriptlet.Bound.Stmt

/-- A statement without statements in it. -/
@[simp] def isFlat : Stmt → Bool
  | declaration .. | expression _ | goto _ | gotoIf .. | label _ => true
  | _ => false

/-- A declaration or an expression. -/
@[simp] def isSimple : Stmt → Bool
  | declaration .. | expression _ => true
  | _ => false

/-- The condition of a conditional jump and the outcome on which it jumps. -/
@[simp] def test? : Stmt → Option (Expr × Bool)
  | gotoIf _ condition expected => some (condition, expected)
  | _ => none

/-- The test that a branch or a loop makes, and the outcome on which its code
jumps: a branch jumps over its consequence, a loop back to its body. -/
@[simp] def ownTest? : Stmt → Option (Expr × Bool)
  | ifThen condition _ => some (condition, false)
  | ifElse condition _ _ => some (condition, false)
  | whileLoop condition _ => some (condition, true)
  | forLoop target _ upper _ => some (countingCondition target upper, true)
  | _ => none

/-- Number of labels that a statement needs besides those of the statements in
it. -/
@[simp] def ownLabels : Stmt → Nat
  | ifThen .. => 1
  | ifElse .. => 2
  | whileLoop .. | forLoop .. => 3
  | _ => 0

mutual

/-- A statement and all statements in it, in the order in which they begin. -/
def parts : Stmt → List Stmt
  | block statements => block statements :: partsAll statements
  | ifThen condition consequence => ifThen condition consequence :: consequence.parts
  | ifElse condition consequence alternative =>
    ifElse condition consequence alternative :: (consequence.parts ++ alternative.parts)
  | whileLoop condition body => whileLoop condition body :: body.parts
  | forLoop target lower upper body => forLoop target lower upper body :: body.parts
  | s => [s]

/-- The statements of a row and all statements in them. -/
def partsAll : List Stmt → List Stmt
  | [] => []
  | s :: ss => s.parts ++ partsAll ss

end

mutual

/-- The declarations and expressions in a statement in their order. A counting
loop has a declaration in front of its body and a step behind it. -/
def simple : Stmt → List Stmt
  | block statements => simpleAll statements
  | declaration target initializer => [declaration target initializer]
  | expression inner => [expression inner]
  | ifThen _ consequence => consequence.simple
  | ifElse _ consequence alternative => consequence.simple ++ alternative.simple
  | whileLoop _ body => body.simple
  | forLoop target lower _ body =>
    declaration target lower :: body.simple ++ [countingStep target]
  | goto _ | gotoIf .. | label _ => []

/-- The declarations and expressions in a row of statements. -/
def simpleAll : List Stmt → List Stmt
  | [] => []
  | s :: ss => s.simple ++ simpleAll ss

end

/-- A statement has no statements in it, and if it jumps, then to a label of the
program. -/
def FlatIn (p : Program) (s : Stmt) : Prop :=
  s.isFlat = true ∧ ∀ target, s.jump? = some target → label target ∈ p

end Scriptlet.Bound.Stmt

namespace Scriptlet.Program

open Scriptlet.Bound Stmt

/-- All statements are flat, and all jumps go to labels of the program itself. -/
def SelfContained (p : Program) : Prop := ∀ s ∈ p, s.FlatIn p

variable {p code code' : Program} {target : Label}

/-- Self-contained code stays so inside a program. -/
theorem SelfContained.flatIn (h : code.SelfContained) (hp : ∀ s ∈ code, s ∈ p) :
    ∀ s ∈ code, s.FlatIn p := by
  intro s hs
  obtain ⟨flat, jumps⟩ := h s hs
  exact ⟨flat, fun target ht => hp _ (jumps target ht)⟩

/-- Two pieces of self-contained code make one. -/
theorem SelfContained.append (h : code.SelfContained) (h' : code'.SelfContained) :
    (code ++ code').SelfContained := by
  intro s hs
  rcases List.mem_append.1 hs with hs | hs
  · exact h.flatIn (fun t ht => List.mem_append_left _ ht) s hs
  · exact h'.flatIn (fun t ht => List.mem_append_right _ ht) s hs

/-- A program that places no label twice has one place for each. -/
theorem exists_place (hp : p.labels.Nodup) (h : Stmt.label target ∈ p) :
    ∃ place : Nat, ∀ i : Nat, p[i]? = some (Stmt.label target) ↔ i = place := by
  obtain ⟨place, hplace⟩ := List.getElem?_of_mem h
  refine ⟨place, fun i => ⟨fun hi => ?_, fun same => same ▸ hplace⟩⟩
  have found := placement?_of_nodup hp hi
  rw [placement?_of_nodup hp hplace] at found
  exact (Option.some.inj found).symm

end Scriptlet.Program

namespace Scriptlet.Bound.Stmt

open Program

variable {s : Stmt} {ss : List Stmt}

mutual

/-- The labels of a statement are those that its parts need. -/
theorem labelCount_eq_sum (s : Stmt) : s.labelCount = (s.parts.map ownLabels).sum := by
  cases s with
  | block statements => simp [labelCount, parts, ownLabels, labelCountAll_eq_sum statements]
  | ifThen condition consequence =>
    simp [labelCount, parts, ownLabels, labelCount_eq_sum consequence, Nat.add_comm]
  | ifElse condition consequence alternative =>
    simp [labelCount, parts, ownLabels, labelCount_eq_sum consequence,
      labelCount_eq_sum alternative, Nat.add_comm]
  | whileLoop condition body =>
    simp [labelCount, parts, ownLabels, labelCount_eq_sum body, Nat.add_comm]
  | forLoop target lower upper body =>
    simp [labelCount, parts, ownLabels, labelCount_eq_sum body, Nat.add_comm]
  | declaration | expression | goto | gotoIf | label => simp [labelCount, parts, ownLabels]

/-- The labels of a row of statements are those that their parts need. -/
theorem labelCountAll_eq_sum (ss : List Stmt) :
    labelCountAll ss = ((partsAll ss).map ownLabels).sum := by
  cases ss with
  | nil => rfl
  | cons s ss =>
    simp [labelCountAll, partsAll, labelCount_eq_sum s, labelCountAll_eq_sum ss]

end

/-- The code of a row is self-contained if that of each of its statements is. -/
theorem selfContained_codeAll (fresh : Nat → Label)
    (h : ∀ s ∈ ss, ∀ n, (s.code fresh n).SelfContained) (n : Nat) :
    (codeAll fresh n ss).SelfContained := by
  induction ss generalizing n with
  | nil => exact fun _ ht => absurd ht List.not_mem_nil
  | cons s ss ih =>
    have head := h s List.mem_cons_self n
    exact head.append (ih (fun t ht => h t (List.mem_cons_of_mem s ht)) _)

/-- The code of a loop is self-contained if that of its body is. -/
theorem selfContained_loopCode (check body finish : Label) (condition : Expr)
    {bodyCode : Program} (h : bodyCode.SelfContained) :
    (loopCode check body finish condition bodyCode).SelfContained := by
  have inside := h.flatIn (p := loopCode check body finish condition bodyCode)
    fun t ht => by simp [loopCode, ht]
  intro t ht
  simp only [loopCode, List.mem_append, List.mem_cons, List.not_mem_nil, or_false] at ht
  rcases ht with ((rfl | rfl) | ht) | rfl | rfl | rfl
  · exact ⟨rfl, by simp [jump?, loopCode]⟩
  · exact ⟨rfl, by simp [jump?]⟩
  · exact inside t ht
  · exact ⟨rfl, by simp [jump?]⟩
  · exact ⟨rfl, by simp [jump?, loopCode]⟩
  · exact ⟨rfl, by simp [jump?]⟩

/-- The code of a structured statement is flat, and its jumps stay in it. -/
theorem selfContained_code (hs : s.Structured) (fresh : Nat → Label) (n : Nat) :
    (s.code fresh n).SelfContained := by
  induction hs generalizing n with
  | block ss _ ih => exact selfContained_codeAll fresh ih n
  | declaration | expression => simp [SelfContained, FlatIn, code, isFlat, jump?]
  | ifThen condition consequence _ ih =>
    have inside := (ih (n + 1)).flatIn (p := (ifThen condition consequence).code fresh n)
      fun t ht => by simp [code, ht]
    intro t ht
    simp only [code, List.cons_append, List.mem_append, List.mem_cons, List.not_mem_nil,
      or_false] at ht
    rcases ht with rfl | ht | rfl
    · exact ⟨rfl, by simp [jump?, code]⟩
    · exact inside t ht
    · exact ⟨rfl, by simp [jump?]⟩
  | ifElse condition consequence alternative _ _ ih ih' =>
    have inside := (ih (n + 2)).flatIn
      (p := (ifElse condition consequence alternative).code fresh n) fun t ht => by simp [code, ht]
    have inside' := (ih' (n + 2 + consequence.labelCount)).flatIn
      (p := (ifElse condition consequence alternative).code fresh n) fun t ht => by simp [code, ht]
    intro t ht
    simp only [code, List.cons_append, List.mem_append, List.mem_cons, List.not_mem_nil,
      or_false] at ht
    rcases ht with rfl | ((ht | rfl | rfl) | ht) | rfl
    · exact ⟨rfl, by simp [jump?, code]⟩
    · exact inside t ht
    · exact ⟨rfl, by simp [jump?, code]⟩
    · exact ⟨rfl, by simp [jump?]⟩
    · exact inside' t ht
    · exact ⟨rfl, by simp [jump?]⟩
  | whileLoop condition body _ ih => exact selfContained_loopCode _ _ _ _ (ih (n + 3))
  | forLoop target lower upper body _ ih =>
    have single (t : Stmt) (flat : t.isFlat = true) (still : t.jump? = none) :
        SelfContained [t] := by
      intro s hs
      obtain rfl := List.mem_singleton.1 hs
      exact ⟨flat, by simp [still]⟩
    have round := (ih (n + 3)).append (single (countingStep target) rfl rfl)
    exact (single (declaration target lower) rfl rfl).append
      (selfContained_loopCode _ _ _ _ round)

/-- The declarations and expressions in the code of a row are those of the row, if
that is so for each of its statements. -/
theorem filter_isSimple_codeAll (fresh : Nat → Label)
    (h : ∀ s ∈ ss, ∀ n, (s.code fresh n).filter isSimple = s.simple) (n : Nat) :
    (codeAll fresh n ss).filter isSimple = simpleAll ss := by
  induction ss generalizing n with
  | nil => rfl
  | cons s ss ih =>
    have others := ih (fun t ht => h t (List.mem_cons_of_mem s ht)) (n + s.labelCount)
    rw [codeAll, List.filter_append, h s List.mem_cons_self, others, simpleAll]

/-- The code of a structured statement keeps its declarations and expressions. -/
theorem filter_isSimple_code (hs : s.Structured) (fresh : Nat → Label) (n : Nat) :
    (s.code fresh n).filter isSimple = s.simple := by
  induction hs generalizing n with
  | block ss _ ih => exact filter_isSimple_codeAll fresh ih n
  | declaration | expression => rfl
  | ifThen condition consequence _ ih => simp [code, simple, ih]
  | ifElse condition consequence alternative _ _ ih ih' =>
    simp [code, simple, ih, ih']
  | whileLoop condition body _ ih => simp [code, loopCode, simple, ih]
  | forLoop target lower upper body _ ih =>
    simp [code, loopCode, simple, countingStep, List.filter_cons, ih]

/-- The conditional jumps in the code of a row make the tests of the row, if that is
so for each of its statements. -/
theorem filterMap_test?_codeAll (fresh : Nat → Label)
    (h : ∀ s ∈ ss, ∀ n, ((s.code fresh n).filterMap test?).Perm (s.parts.filterMap ownTest?))
    (n : Nat) :
    ((codeAll fresh n ss).filterMap test?).Perm ((partsAll ss).filterMap ownTest?) := by
  induction ss generalizing n with
  | nil => exact .refl _
  | cons s ss ih =>
    have others := ih (fun t ht => h t (List.mem_cons_of_mem s ht)) (n + s.labelCount)
    rw [codeAll, partsAll, List.filterMap_append, List.filterMap_append]
    exact (h s List.mem_cons_self n).append others

/-- The conditional jumps in the code of a structured statement make its tests, each
of them once. -/
theorem filterMap_test?_code (hs : s.Structured) (fresh : Nat → Label) (n : Nat) :
    ((s.code fresh n).filterMap test?).Perm (s.parts.filterMap ownTest?) := by
  induction hs generalizing n with
  | block ss _ ih => exact filterMap_test?_codeAll fresh ih n
  | declaration | expression => exact .refl _
  | ifThen condition consequence _ ih => simpa [code, parts, List.filterMap_cons] using ih (n + 1)
  | ifElse condition consequence alternative _ _ ih ih' =>
    have sides := (ih (n + 2)).append (ih' (n + 2 + consequence.labelCount))
    simpa [code, parts, List.filterMap_cons] using sides
  | whileLoop condition body _ ih =>
    have test := (List.perm_append_singleton _ _).trans ((ih (n + 3)).cons (condition, true))
    simpa [code, loopCode, parts, List.filterMap_cons] using test
  | forLoop target lower upper body _ ih =>
    have test := (List.perm_append_singleton _ _).trans
      ((ih (n + 3)).cons (countingCondition target upper, true))
    simpa [code, loopCode, parts, countingStep, List.filterMap_cons] using test

/-- Flat statements are their own code. -/
theorem codeAll_of_isFlat {p : Program} (flat : ∀ t ∈ p, t.isFlat = true) (fresh : Nat → Label)
    (n : Nat) : codeAll fresh n p = p := by
  induction p generalizing n with
  | nil => rfl
  | cons t p ih =>
    rw [List.forall_mem_cons] at flat
    have single : t.code fresh n = [t] := by
      cases t with
      | declaration | expression | goto | gotoIf | label => rfl
      | block | ifThen | ifElse | whileLoop | forLoop => cases flat.1
    rw [codeAll, single, ih flat.2, List.singleton_append]

/-- Labels are named after their numbers. -/
theorem name_freshLabel_injective (bound : Nat) {j k : Nat}
    (h : (freshLabel bound j).name = (freshLabel bound k).name) : j = k := by
  have texts : j.repr = k.repr := by simpa [freshLabel] using h
  have digits := congrArg (fun text => Nat.ofDigitChars 10 text.toList 0) texts
  simpa [Nat.ofDigitChars_toDigits] using digits

/-- The labels of a flat program are named after the numbers from one on, up to the
number of labels that the parts of the statement need. -/
theorem names_lower (hs : s.Structured) :
    (s.lower.labels.map Label.name).Perm
      ((List.range' 1 (s.parts.map ownLabels).sum).map fun k => s!"Label{k}") := by
  have named := (labels_code hs (freshLabel s.labelBound) 0).map Label.name
  rwa [freshLabels, List.map_map, labelCount_eq_sum] at named

/-- Lowering flattens. The flat program of a structured statement consists of
declarations, expressions, jumps and labels. Every label that it places or jumps
to has exactly one place. The names of the labels are different and count the
labels that branches and loops need. The declarations and expressions are those
of the statement, where every counting loop has one declaration in front of its
body and one step behind it; every test of a branch or a loop is made by one
conditional jump; and lowering the program again changes nothing. -/
theorem lower_flattens (hs : s.Structured) :
    (∀ t ∈ s.lower, t.isFlat = true) ∧
    (∀ target : Label, (label target ∈ s.lower ∨ ∃ t ∈ s.lower, t.jump? = some target) →
      ∃ place : Nat, ∀ i : Nat, s.lower[i]? = some (label target) ↔ i = place) ∧
    (s.lower.labels.map Label.name).Nodup ∧
    (s.lower.labels.map Label.name).Perm
      ((List.range' 1 (s.parts.map ownLabels).sum).map fun k => s!"Label{k}") ∧
    s.lower.filter isSimple = s.simple ∧
    (s.lower.filterMap test?).Perm (s.parts.filterMap ownTest?) ∧
    (block s.lower).lower = s.lower := by
  have contained : s.lower.SelfContained := selfContained_code hs _ 0
  have flat : ∀ t ∈ s.lower, t.isFlat = true := fun t ht => (contained t ht).1
  refine ⟨flat, ?_, ?_, names_lower hs, filter_isSimple_code hs _ 0,
    filterMap_test?_code hs _ 0, codeAll_of_isFlat flat _ 0⟩
  · rintro target (placed | ⟨t, ht, jumps⟩)
    · exact exists_place (nodup_labels_lower hs) placed
    · exact exists_place (nodup_labels_lower hs) ((contained t ht).2 target jumps)
  · rw [(names_lower hs).nodup_iff]
    refine List.pairwise_map.2 ((List.nodup_range' 1).imp fun hne same => hne ?_)
    exact name_freshLabel_injective 0 same

/-- A counting loop on one side of a branch, a test in a loop on the other. -/
def nestedSample : Stmt :=
  ifElse (.literal (.bool true))
    (forLoop ⟨0, "i", .int, true⟩ (.literal (.int 1)) (.literal (.int 2))
      (expression (.name ⟨0, "i", .int, true⟩)))
    (whileLoop (.literal (.bool false))
      (block [ifThen (.name ⟨1, "ready", .bool, false⟩)
        (declaration ⟨2, "x", .int, false⟩ (.literal (.int 3)))]))

/-- The branch needs two labels, each loop three and the test one; the counting
loop brings a declaration and a step. -/
theorem lower_flattens_nestedSample :
    nestedSample.Structured ∧
    (nestedSample.lower.labels.map Label.name).Perm
      ((List.range' 1 9).map fun k => s!"Label{k}") ∧
    nestedSample.lower.filter isSimple =
      [declaration ⟨0, "i", .int, true⟩ (.literal (.int 1)),
        expression (.name ⟨0, "i", .int, true⟩), countingStep ⟨0, "i", .int, true⟩,
        declaration ⟨2, "x", .int, false⟩ (.literal (.int 3))] := by
  have body : (block [ifThen (.name ⟨1, "ready", .bool, false⟩)
      (declaration ⟨2, "x", .int, false⟩ (.literal (.int 3)))]).Structured :=
    .block _ fun s hs => List.mem_singleton.1 hs ▸ .ifThen _ _ (.declaration _ _)
  have structured : nestedSample.Structured :=
    .ifElse _ _ _ (.forLoop _ _ _ _ (.expression _)) (.whileLoop _ _ body)
  obtain ⟨-, -, -, names, simples, -, -⟩ := lower_flattens structured
  exact ⟨structured, names, simples⟩

end Scriptlet.Bound.Stmt
