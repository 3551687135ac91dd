import Scriptlet.Program.Lowering
import Scriptlet.Proofs.Lowering.Reaching

/-!
# Where lowered code stands

Code that stands somewhere in a program is split where it was put together. The
labels that the code of a structured statement places are those it was given
numbers for, each of them once, so the place of every label is the only one.
-/

namespace Scriptlet

namespace Program

open Scriptlet.Bound

/-- A piece of code stands in a program from an index on. -/
def Holds (p : Program) (i : Nat) (code : Program) : Prop :=
  ∀ k, k < code.length → p[i + k]? = code[k]?

/-- The labels that a program places, from the first to the last. -/
def labels (p : Program) : List Label := p.filterMap Stmt.placed?

variable {p code code' : Program} {i : Nat} {s : Stmt} {label : Label}

theorem holds_self (p : Program) : p.Holds 0 p := fun k _ => by rw [Nat.zero_add]

/-- The first statement of a piece and the piece behind it. -/
theorem holds_cons_iff : p.Holds i (s :: code) ↔ p[i]? = some s ∧ p.Holds (i + 1) code := by
  constructor
  · intro h
    refine ⟨by simpa using h 0 (by simp), fun k hk => ?_⟩
    have hs := h (k + 1) (by simpa using hk)
    rwa [← Nat.add_assoc, Nat.add_right_comm, List.getElem?_cons_succ] at hs
  · rintro ⟨hs, h⟩ k hk
    cases k with
    | zero => simpa using hs
    | succ k =>
      rw [← Nat.add_assoc, Nat.add_right_comm, List.getElem?_cons_succ]
      exact h k (by simpa using hk)

/-- A piece that was put together from two. -/
theorem holds_append_iff :
    p.Holds i (code ++ code') ↔ p.Holds i code ∧ p.Holds (i + code.length) code' := by
  induction code generalizing i with
  | nil => simp [Holds]
  | cons s code ih =>
    rw [List.cons_append, holds_cons_iff, holds_cons_iff, ih, and_assoc, List.length_cons]
    simp only [Nat.add_comm, Nat.add_left_comm]

@[simp] theorem labels_nil : labels [] = [] := rfl

@[simp] theorem labels_append (p q : Program) : labels (p ++ q) = p.labels ++ q.labels :=
  List.filterMap_append

@[simp] theorem labels_cons_label (placed : Label) (p : Program) :
    labels (.label placed :: p) = placed :: p.labels := rfl

@[simp] theorem labels_cons_goto (target : Label) (p : Program) :
    labels (.goto target :: p) = p.labels := rfl

@[simp] theorem labels_cons_gotoIf (target : Label) (condition : Expr) (expected : Bool)
    (p : Program) : labels (.gotoIf target condition expected :: p) = p.labels := rfl

@[simp] theorem labels_cons_declaration (target : Variable) (initializer : Expr) (p : Program) :
    labels (.declaration target initializer :: p) = p.labels := rfl

@[simp] theorem labels_cons_expression (inner : Expr) (p : Program) :
    labels (.expression inner :: p) = p.labels := rfl

/-- If no label is placed twice, a label is found where it stands. -/
theorem placement?_of_nodup (hp : p.labels.Nodup) (h : p[i]? = some (.label label)) :
    p.placement? label = some i := by
  induction p generalizing i with
  | nil => simp at h
  | cons s rest ih =>
    cases i with
    | zero =>
      obtain rfl : s = .label label := by simpa using h
      rw [labels_cons_label, List.nodup_cons] at hp
      have habsent : placement? label rest = none := by
        rw [← Option.not_isSome_iff_eq_none, placement?_isSome]
        intro hm
        exact hp.1 (List.mem_filterMap.2 ⟨_, hm, rfl⟩)
      simp [placement?, habsent, Stmt.placed?]
    | succ i =>
      have htail : (labels rest).Nodup := hp.sublist ((List.sublist_cons_self s rest).filterMap _)
      rw [placement?, ih htail (by simpa using h)]

end Program

namespace Machine

open Scriptlet.Bound Evaluating Program

variable {p : Program} {i j : Nat} {target : Label} {condition : Expr}

/-- A jump goes behind the place of its label. -/
theorem goto_of_nodup (hp : p.labels.Nodup) (h : p[i]? = some (.label target)) :
    goto p target = .ok (i + 1) := by
  rw [goto, placement?_of_nodup hp h]

/-- A label is passed by. -/
theorem step_label (h : p[i]? = some (.label target)) (last : Value) (memory : Memory) :
    step p ⟨i, last, memory⟩ = .running ⟨i + 1, last, memory⟩ := by
  simp [step, h, execute]

/-- A jump is taken. -/
theorem step_goto (hp : p.labels.Nodup) (h : p[i]? = some (.goto target))
    (ht : p[j]? = some (.label target)) (last : Value) (memory : Memory) :
    step p ⟨i, last, memory⟩ = .running ⟨j + 1, last, memory⟩ := by
  simp [step, h, execute, goto_of_nodup hp ht, Except.map]

/-- A conditional jump tests its condition and is taken if the outcome is the
expected one. -/
theorem tests_gotoIf (hp : p.labels.Nodup) {expected : Bool}
    (h : p[i]? = some (.gotoIf target condition expected)) (ht : p[j]? = some (.label target)) :
    p.Tests i condition.holds (if expected then j + 1 else i + 1)
      (if expected then i + 1 else j + 1) := by
  intro last memory
  simp only [step, h, execute, Expr.holds, on_bind]
  rcases condition.evaluate.on memory with ⟨fault | value, after⟩
  · rfl
  · rcases hv : value.expectBool "condition" with fault | outcome
    · simp [hv]
    · cases outcome <;> cases expected <;> simp [hv, goto_of_nodup hp ht, Except.map]

end Machine

namespace Bound.Stmt

open Program

variable {s : Stmt} {ss : List Stmt}

/-- The labels of a row of numbers, beginning behind a number. -/
def freshLabels (fresh : Nat → Label) (n count : Nat) : List Label :=
  (List.range' (n + 1) count).map fresh

theorem freshLabels_succ (fresh : Nat → Label) (n count : Nat) :
    freshLabels fresh n (count + 1) = fresh (n + 1) :: freshLabels fresh (n + 1) count := by
  simp [freshLabels, List.range'_succ]

theorem freshLabels_add (fresh : Nat → Label) (n count count' : Nat) :
    freshLabels fresh n (count + count') =
      freshLabels fresh n count ++ freshLabels fresh (n + count) count' := by
  simp only [freshLabels]
  rw [← List.map_append, Nat.add_right_comm, List.range'_append_1]

/-- The labels of the code of a row, if those of its parts are as they should be. -/
theorem labels_codeAll (fresh : Nat → Label)
    (h : ∀ s ∈ ss, ∀ n, (s.code fresh n).labels.Perm (freshLabels fresh n s.labelCount)) (n : Nat) :
    (codeAll fresh n ss).labels.Perm (freshLabels fresh n (labelCountAll ss)) := by
  induction ss generalizing n with
  | nil => exact .refl _
  | cons s ss ih =>
    simp only [codeAll, labelCountAll, labels_append, freshLabels_add]
    exact (h s List.mem_cons_self n).append (ih (fun t ht => h t (List.mem_cons_of_mem s ht)) _)

/-- The labels of the code of a loop: its own three and those of its body. -/
theorem labels_loopCode (check body finish : Label) (condition : Expr) (bodyCode : Program) :
    (loopCode check body finish condition bodyCode).labels.Perm
      (check :: body :: finish :: bodyCode.labels) := by
  simp only [loopCode, List.cons_append, List.nil_append, labels_cons_goto, labels_cons_label,
    labels_append, labels_cons_gotoIf, labels_nil]
  rw [List.perm_iff_count]
  intro label
  simp only [List.count_cons, List.count_append, List.count_nil]
  omega

/-- The code of a structured statement places exactly the labels of the numbers
it was given, each of them once. -/
theorem labels_code (hs : s.Structured) (fresh : Nat → Label) (n : Nat) :
    (s.code fresh n).labels.Perm (freshLabels fresh n s.labelCount) := by
  induction hs generalizing n with
  | block ss _ ih => exact labels_codeAll fresh ih n
  | declaration | expression => exact .refl _
  | ifThen condition consequence _ ih =>
    simp only [code, labelCount, List.cons_append, labels_cons_gotoIf, labels_append,
      labels_cons_label, labels_nil, freshLabels_succ]
    exact ((ih (n + 1)).append_right _).trans List.perm_append_comm
  | ifElse condition consequence alternative _ _ ih ih' =>
    have parts := (ih (n + 2)).append (ih' (n + 2 + consequence.labelCount))
    simp only [code, labelCount, List.cons_append, List.append_assoc, List.nil_append,
      labels_cons_gotoIf, labels_cons_goto, labels_append, labels_cons_label, labels_nil,
      freshLabels_succ, freshLabels_add]
    refine List.perm_middle.trans (.cons _ ?_)
    rw [← List.append_assoc]
    exact List.perm_append_comm.trans (parts.cons _)
  | whileLoop condition body _ ih =>
    simp only [code, labelCount, freshLabels_succ]
    exact (labels_loopCode ..).trans (((ih (n + 3)).cons _).cons _ |>.cons _)
  | forLoop target lower upper body _ ih =>
    simp only [code, labelCount, freshLabels_succ, labels_cons_declaration]
    refine (labels_loopCode ..).trans ?_
    rw [labels_append, countingStep, labels_cons_expression, labels_nil, List.append_nil]
    exact (((ih (n + 3)).cons _).cons _).cons _

/-- The flat program of a structured statement places no label twice. -/
theorem nodup_labels_lower (hs : s.Structured) : s.lower.labels.Nodup := by
  rw [lower, (labels_code hs _ 0).nodup_iff, freshLabels]
  refine List.pairwise_map.2 ?_
  exact (List.nodup_range' 1).imp fun hne h => hne (freshLabel_injective h)

end Bound.Stmt

end Scriptlet
