import Scriptlet.Proofs.Lowering.Simulation

/-!
# Stretches of a row of statements

The code of a row of statements consists of one stretch for each statement, and
a run that fails does so in the stretch of the first statement that comes to a
fault.
-/

namespace Scriptlet

namespace Program

open Machine

/-- A run of a program on a memory fails at a statement in a stretch of the
program. -/
def FailsIn (p : Program) (stretch : Nat → Prop) (memory : Memory) (fault : Fault) : Prop :=
  ∃ failing after, Reaches p (.start memory) failing ∧ stretch failing.index ∧
    failing.step p = .halted (.error fault) after

end Program

namespace Bound.Stmt

open Machine Meaning Program

variable {rounds : Nat} {last value : Value} {memory between after : Memory} {fault : Fault}
  {ss front behind : List Stmt} {s : Stmt}

/-- A row that ends with a fault has a first statement that does, behind others
that come to their end. -/
theorem exists_split_of_error
    (h : interpretAll rounds ss last memory = some (.error fault, after)) :
    ∃ front s behind value between, ss = front ++ s :: behind ∧
      interpretAll rounds front last memory = some (.ok value, between) ∧
      s.interpret rounds value between = some (.error fault, after) := by
  induction ss generalizing last memory with
  | nil => cases h
  | cons s ss ih =>
    rw [interpretAll] at h
    rcases hs : s.interpret rounds last memory with _ | ⟨fault' | value, between⟩
    · rw [andThen_of_none hs] at h
      cases h
    · rw [andThen_of_error hs] at h
      cases h
      exact ⟨[], s, ss, last, memory, rfl, rfl, hs⟩
    · rw [andThen_of_ok hs] at h
      obtain ⟨front, t, behind, value', between', rfl, hfront, ht⟩ := ih h
      exact ⟨s :: front, t, behind, value', between', rfl, (andThen_of_ok hs).trans hfront, ht⟩

/-- The code of a row consists of the codes of its parts. -/
theorem codeAll_append (fresh : Nat → Label) (n : Nat) (front behind : List Stmt) :
    codeAll fresh n (front ++ behind) =
      codeAll fresh n front ++ codeAll fresh (n + labelCountAll front) behind := by
  induction front generalizing n with
  | nil => rfl
  | cons s front ih =>
    rw [List.cons_append, codeAll, codeAll, ih, labelCountAll, List.append_assoc, Nat.add_assoc]

mutual

/-- The length of the code of a statement does not depend on its labels. -/
theorem length_code (fresh fresh' : Nat → Label) (n n' : Nat) (s : Stmt) :
    (s.code fresh n).length = (s.code fresh' n').length := by
  cases s with
  | block statements => exact length_codeAll fresh fresh' n n' statements
  | declaration | expression | goto | gotoIf | label => rfl
  | ifThen condition consequence =>
    have part := length_code fresh fresh' (n + 1) (n' + 1) consequence
    simp only [code, List.length_cons, List.length_append, part]
  | ifElse condition consequence alternative =>
    have part := length_code fresh fresh' (n + 2) (n' + 2) consequence
    have part' := length_code fresh fresh' (n + 2 + consequence.labelCount)
      (n' + 2 + consequence.labelCount) alternative
    simp only [code, List.length_cons, List.length_append, part, part']
  | whileLoop condition body =>
    have part := length_code fresh fresh' (n + 3) (n' + 3) body
    simp only [code, loopCode, List.length_cons, List.length_append, part]
  | forLoop target lower upper body =>
    have part := length_code fresh fresh' (n + 3) (n' + 3) body
    simp only [code, loopCode, List.length_cons, List.length_append, part]

/-- The length of the code of a row does not depend on its labels. -/
theorem length_codeAll (fresh fresh' : Nat → Label) (n n' : Nat) (ss : List Stmt) :
    (codeAll fresh n ss).length = (codeAll fresh' n' ss).length := by
  cases ss with
  | nil => rfl
  | cons s ss =>
    have part := length_code fresh fresh' n n' s
    have parts := length_codeAll fresh fresh' (n + s.labelCount) (n' + s.labelCount) ss
    rw [codeAll, codeAll, List.length_append, List.length_append, part, parts]

end

/-- The code of a row is as long as the flat programs of its parts together. -/
theorem length_codeAll_eq (fresh : Nat → Label) (n : Nat) (ss : List Stmt) :
    (codeAll fresh n ss).length = (ss.flatMap lower).length := by
  induction ss generalizing n with
  | nil => rfl
  | cons s ss ih =>
    have part := length_code fresh (freshLabel s.labelBound) n 0 s
    rw [codeAll, List.length_append, ih, part, List.flatMap_cons, List.length_append, lower]

/-- The indices of the stretch of a statement behind others. -/
def stretch (front : List Stmt) (s : Stmt) : Nat → Prop :=
  Between (front.flatMap lower).length ((front.flatMap lower).length + s.lower.length)

/-- Where the code of a row stands in front of a program, a run whose parts come
to their end up to one that fails gets to a statement in the stretch of that
part, which fails. -/
theorem failsIn_of_holds {p : Program} (distinct : p.labels.Nodup) {fresh : Nat → Label}
    (parts : ∀ t ∈ front ++ s :: behind, t.Structured)
    (held : p.Holds 0 (codeAll fresh 0 (front ++ s :: behind)))
    (hfront : interpretAll rounds front .void memory = some (.ok value, between))
    (hfault : s.interpret rounds value between = some (.error fault, after)) :
    p.FailsIn (stretch front s) memory fault := by
  have frontParts : (block front).Structured :=
    .block front fun t ht => parts t (List.mem_append_left _ ht)
  have part : s.Structured := parts s (List.mem_append_right _ List.mem_cons_self)
  rw [codeAll_append, codeAll, holds_append_iff, holds_append_iff, Nat.zero_add, Nat.zero_add,
    length_codeAll_eq] at held
  obtain ⟨heldFront, heldPart, -⟩ := held
  have comes := (realizedIn_of_structured distinct fresh frontParts 0 0 heldFront).arrives hfront
  have fails := (realizedIn_of_structured distinct fresh part _ _ heldPart).arrives hfault
  have hlength := length_code fresh (freshLabel s.labelBound) (labelCountAll front) 0 s
  rw [code, Nat.zero_add, length_codeAll_eq] at comes
  obtain ⟨failing, reaches, hindex, hstep⟩ := fails
  rw [hlength] at hindex
  exact ⟨failing, after, Reaches.trans comes reaches, hindex, hstep⟩

/-- A block whose parts come to their end up to one that fails is run up to a
statement in the stretch of that part, which fails. -/
theorem failsIn_stretch (hs : (block (front ++ s :: behind)).Structured)
    (hfront : interpretAll rounds front .void memory = some (.ok value, between))
    (hfault : s.interpret rounds value between = some (.error fault, after)) :
    (block (front ++ s :: behind)).lower.FailsIn (stretch front s) memory fault := by
  have distinct := nodup_labels_lower hs
  have held := holds_self (block (front ++ s :: behind)).lower
  cases hs with
  | block _ parts => exact failsIn_of_holds distinct parts held hfront hfault

end Bound.Stmt

end Scriptlet
