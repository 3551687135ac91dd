import Scriptlet.Proofs.Evaluation.Mentioned
import Scriptlet.Proofs.Lowering.Flattening

/-!
# Which flat statements write to a variable

The flat program of a statement gives values to the variables to which the
statement gives values. A variable that has a single place in the statement is
written to by the code of the part with that place and by nothing else: by one
declaration, or by the declaration and the step of a counting loop. No other step
of a run changes its entry.
-/

namespace Scriptlet

namespace Bound

/-- The variables to which an expression gives values. -/
def Expr.targets (e : Expr) : List Variable := (e.sites false).map Site.target

namespace Stmt

/-- The variables to which a statement gives values. -/
def targets (s : Stmt) : List Variable := s.sites.map Site.target

/-- A statement gives a variable a value. -/
def writes (v : Variable) (s : Stmt) : Bool := decide (v ∈ s.targets)

variable (target : Variable) (condition lower upper : Expr) (body body' : Stmt)

@[simp] theorem targets_declaration (initializer : Expr) :
    (declaration target initializer).targets = initializer.targets ++ [target] :=
  List.map_append

@[simp] theorem targets_ifThen :
    (ifThen condition body).targets = condition.targets ++ body.targets := List.map_append

@[simp] theorem targets_ifElse : (ifElse condition body body').targets =
    condition.targets ++ (body.targets ++ body'.targets) := by
  simp [targets, sites, Expr.targets]

@[simp] theorem targets_whileLoop :
    (whileLoop condition body).targets = condition.targets ++ body.targets := List.map_append

@[simp] theorem targets_forLoop : (forLoop target lower upper body).targets =
    lower.targets ++ (upper.targets ++ (target :: body.targets)) := by
  simp [targets, sites, Expr.targets]

@[simp] theorem targets_goto (label : Label) : (goto label).targets = [] := rfl

@[simp] theorem targets_gotoIf (label : Label) (expected : Bool) :
    (gotoIf label condition expected).targets = condition.targets := rfl

@[simp] theorem targets_label (placed : Label) : (label placed).targets = [] := rfl

/-- The step of a counting loop gives its variable a value. -/
@[simp] theorem targets_countingStep : (countingStep target).targets = [target] := rfl

end Stmt

/-- The test of a counting loop gives values where its upper bound does. -/
@[simp] theorem targets_countingCondition (target : Variable) (upper : Expr) :
    (countingCondition target upper).targets = upper.targets := rfl

end Bound

namespace Program

variable {s : Bound.Stmt} {p q : Program}

@[simp] theorem targets_nil : targets [] = [] := rfl

@[simp] theorem targets_cons : targets (s :: p) = s.targets ++ p.targets := rfl

@[simp] theorem targets_append : targets (p ++ q) = p.targets ++ q.targets := List.flatMap_append

end Program

namespace Bound.Stmt

open Program

variable {s part : Stmt} {ss : List Stmt} {v : Variable}

/-- The targets of a row are those of its statements. -/
@[simp] theorem targets_block_cons (s : Stmt) (ss : List Stmt) :
    (block (s :: ss)).targets = s.targets ++ (block ss).targets := List.map_append

/-- The code of a row gives values to the variables of the row if that is so for
each of its statements. -/
theorem targets_codeAll (fresh : Nat → Label)
    (h : ∀ s ∈ ss, ∀ n, (s.code fresh n).targets ⊆ s.targets) (n : Nat) :
    (codeAll fresh n ss).targets ⊆ (block ss).targets := by
  induction ss generalizing n with
  | nil => exact List.nil_subset _
  | cons s ss ih =>
    have head := h s List.mem_cons_self n
    have tail := ih (fun t ht => h t (List.mem_cons_of_mem s ht)) (n + s.labelCount)
    rw [codeAll, targets_append, targets_block_cons]
    exact List.append_subset.2 ⟨List.Subset.trans head (List.subset_append_left _ _),
      List.Subset.trans tail (List.subset_append_right _ _)⟩

/-- The code of a structured statement gives values to the variables of the
statement. -/
theorem targets_code (hs : s.Structured) (fresh : Nat → Label) (n : Nat) :
    (s.code fresh n).targets ⊆ s.targets := by
  induction hs generalizing n with
  | block ss _ ih => exact targets_codeAll fresh ih n
  | declaration | expression => simp [code]
  | ifThen condition consequence _ ih =>
    intro v hv
    have cases : v ∈ condition.targets ∨ v ∈ (consequence.code fresh (n + 1)).targets := by
      simpa [code] using hv
    simpa using cases.imp_right fun inside => ih _ inside
  | ifElse condition consequence alternative _ _ ih ih' =>
    intro v hv
    have cases : v ∈ condition.targets ∨ v ∈ (consequence.code fresh (n + 2)).targets ∨
        v ∈ (alternative.code fresh (n + 2 + consequence.labelCount)).targets := by
      simpa [code] using hv
    simpa using cases.imp_right fun sides =>
      sides.imp (fun inside => ih _ inside) fun inside => ih' _ inside
  | whileLoop condition body _ ih =>
    intro v hv
    have cases : v ∈ (body.code fresh (n + 3)).targets ∨ v ∈ condition.targets := by
      simpa [code, loopCode] using hv
    simpa using cases.symm.imp_right fun inside => ih _ inside
  | forLoop target lower upper body _ ih =>
    intro v hv
    have cases : v ∈ lower.targets ∨ v = target ∨ v ∈ (body.code fresh (n + 3)).targets ∨
        v = target ∨ v ∈ upper.targets := by
      simpa [code, loopCode] using hv
    rw [targets_forLoop]
    rcases cases with first | rfl | inside | rfl | last
    · simp [first]
    · simp
    · simp [ih _ inside]
    · simp
    · simp [last]

/-- No statement of a program writes to a variable that gets no value in it. -/
theorem filter_writes_of_not_mem {p : Program} (h : v ∉ p.targets) : p.filter (writes v) = [] := by
  refine List.filter_eq_nil_iff.2 fun s hs writes => h ?_
  exact List.mem_flatMap.2 ⟨s, hs, of_decide_eq_true writes⟩

/-- The code of a statement that gives a variable no value does not write to it. -/
theorem filter_writes_code (hs : s.Structured) (h : v ∉ s.targets) (fresh : Nat → Label)
    (n : Nat) : (s.code fresh n).filter (writes v) = [] :=
  filter_writes_of_not_mem fun hv => h (targets_code hs fresh n hv)

/-- Code around a piece that gives a variable no value does not write to it. -/
theorem filter_writes_around {front code behind : Program} (h : v ∉ front.targets)
    (h' : v ∉ behind.targets) :
    (front ++ code ++ behind).filter (writes v) = code.filter (writes v) := by
  rw [List.filter_append, List.filter_append, filter_writes_of_not_mem h,
    filter_writes_of_not_mem h', List.nil_append, List.append_nil]

mutual

/-- The places of a part of a statement are among those of the statement. -/
theorem targets_parts (s : Stmt) (h : part ∈ s.parts) : part.targets.Sublist s.targets := by
  cases s with
  | block statements =>
    rcases List.mem_cons.1 h with rfl | h
    · exact .refl _
    · exact targets_partsAll statements h
  | ifThen condition consequence =>
    rcases List.mem_cons.1 h with rfl | h
    · exact .refl _
    · rw [targets_ifThen]
      exact (targets_parts consequence h).trans (List.sublist_append_right _ _)
  | ifElse condition consequence alternative =>
    rcases List.mem_cons.1 h with rfl | h
    · exact .refl _
    · rw [targets_ifElse]
      refine List.Sublist.trans ?_ (List.sublist_append_right _ _)
      rcases List.mem_append.1 h with h | h
      · exact (targets_parts consequence h).trans (List.sublist_append_left _ _)
      · exact (targets_parts alternative h).trans (List.sublist_append_right _ _)
  | whileLoop condition body =>
    rcases List.mem_cons.1 h with rfl | h
    · exact .refl _
    · rw [targets_whileLoop]
      exact (targets_parts body h).trans (List.sublist_append_right _ _)
  | forLoop target lower upper body =>
    rcases List.mem_cons.1 h with rfl | h
    · exact .refl _
    · rw [targets_forLoop]
      refine (targets_parts body h).trans ((List.sublist_cons_self target _).trans ?_)
      exact (List.sublist_append_right _ _).trans (List.sublist_append_right _ _)
  | declaration | expression | goto | gotoIf | label =>
    obtain rfl := List.mem_singleton.1 h
    exact .refl _

/-- The places of a part of a row are among those of the row. -/
theorem targets_partsAll (ss : List Stmt) (h : part ∈ partsAll ss) :
    part.targets.Sublist (block ss).targets := by
  cases ss with
  | nil => cases h
  | cons s ss =>
    rw [targets_block_cons]
    rcases List.mem_append.1 h with h | h
    · exact (targets_parts s h).trans (List.sublist_append_left _ _)
    · exact (targets_partsAll ss h).trans (List.sublist_append_right _ _)

end

/-- A part of a row is a part of one of its statements. -/
theorem exists_of_mem_partsAll (h : part ∈ partsAll ss) : ∃ s ∈ ss, part ∈ s.parts := by
  induction ss with
  | nil => cases h
  | cons s ss ih =>
    rcases List.mem_append.1 h with h | h
    · exact ⟨s, List.mem_cons_self, h⟩
    · obtain ⟨t, ht, h⟩ := ih h
      exact ⟨t, List.mem_cons_of_mem s ht, h⟩

/-- The parts of a structured statement are structured. -/
theorem Structured.of_part (hs : s.Structured) (h : part ∈ s.parts) : part.Structured := by
  induction hs with
  | block ss hss ih =>
    rcases List.mem_cons.1 h with rfl | h
    · exact .block ss hss
    · obtain ⟨s, hs, h⟩ := exists_of_mem_partsAll h
      exact ih s hs h
  | declaration | expression =>
    rw [List.mem_singleton.1 h]
    constructor
  | ifThen condition consequence part ih =>
    rcases List.mem_cons.1 h with rfl | h
    · exact .ifThen condition consequence part
    · exact ih h
  | ifElse condition consequence alternative part part' ih ih' =>
    rcases List.mem_cons.1 h with rfl | h
    · exact .ifElse condition consequence alternative part part'
    · rcases List.mem_append.1 h with h | h
      · exact ih h
      · exact ih' h
  | whileLoop condition body part ih =>
    rcases List.mem_cons.1 h with rfl | h
    · exact .whileLoop condition body part
    · exact ih h
  | forLoop target lower upper body part ih =>
    rcases List.mem_cons.1 h with rfl | h
    · exact .forLoop target lower upper body part
    · exact ih h

/-- A part with the single place of a variable leaves no place for it beside
itself. -/
theorem count_of_part {others : List Variable} (h : part ∈ s.parts) (hv : v ∈ part.targets)
    (once : others.count v + s.targets.count v = 1) : v ∉ others ∧ s.targets.count v = 1 := by
  have here := List.count_pos_iff.2 ((targets_parts s h).subset hv)
  exact ⟨List.count_eq_zero.1 (by omega), by omega⟩

/-- Of a row in which a variable has a single place, the code of the part with that
place writes to it. -/
theorem exists_filter_codeAll (fresh : Nat → Label) (hss : ∀ s ∈ ss, s.Structured)
    (ih : ∀ s ∈ ss, part ∈ s.parts → s.targets.count v = 1 → ∀ n,
      ∃ n', (s.code fresh n).filter (writes v) = (part.code fresh n').filter (writes v))
    (h : part ∈ partsAll ss) (hv : v ∈ part.targets) (once : (block ss).targets.count v = 1)
    (n : Nat) :
    ∃ n', (codeAll fresh n ss).filter (writes v) = (part.code fresh n').filter (writes v) := by
  induction ss generalizing n with
  | nil => cases h
  | cons s ss ihs =>
    rw [List.forall_mem_cons] at ih
    rw [targets_block_cons, List.count_append] at once
    obtain ⟨first, others⟩ := List.forall_mem_cons.1 hss
    rw [codeAll, List.filter_append]
    rcases List.mem_append.1 h with h | h
    · obtain ⟨absent, single⟩ := count_of_part h hv ((Nat.add_comm _ _).trans once)
      have nothing := filter_writes_code (.block ss others) absent fresh (n + s.labelCount)
      rw [code] at nothing
      rw [nothing, List.append_nil]
      exact ih.1 h single n
    · have inside : part ∈ (block ss).parts := List.mem_cons_of_mem _ h
      obtain ⟨absent, single⟩ := count_of_part inside hv once
      rw [filter_writes_code first absent, List.nil_append]
      exact ihs others ih.2 h single (n + s.labelCount)

/-- If a variable has a single place in a statement, the code of the part with that
place writes to it. -/
theorem exists_filter_code (hs : s.Structured) (fresh : Nat → Label) (h : part ∈ s.parts)
    (hv : v ∈ part.targets) (once : s.targets.count v = 1) (n : Nat) :
    ∃ n', (s.code fresh n).filter (writes v) = (part.code fresh n').filter (writes v) := by
  induction hs generalizing n with
  | block ss hss ih =>
    rcases List.mem_cons.1 h with rfl | h
    · exact ⟨n, rfl⟩
    · exact exists_filter_codeAll fresh hss ih h hv once n
  | declaration | expression =>
    rw [List.mem_singleton.1 h]
    exact ⟨n, rfl⟩
  | ifThen condition consequence _ ih =>
    rcases List.mem_cons.1 h with rfl | h
    · exact ⟨n, rfl⟩
    rw [targets_ifThen, List.count_append] at once
    obtain ⟨test, single⟩ := count_of_part h hv once
    obtain ⟨n', inside⟩ := ih h single (n + 1)
    refine ⟨n', Eq.trans ?_ inside⟩
    rw [code, ← List.singleton_append]
    exact filter_writes_around (by simpa using test) (by simp)
  | ifElse condition consequence alternative part part' ih ih' =>
    rcases List.mem_cons.1 h with rfl | h
    · exact ⟨n, rfl⟩
    rw [targets_ifElse, List.count_append, List.count_append] at once
    rcases List.mem_append.1 h with h | h
    · obtain ⟨absent, single⟩ : v ∉ condition.targets ++ alternative.targets ∧
          consequence.targets.count v = 1 :=
        count_of_part h hv (by rw [List.count_append]; omega)
      rw [List.mem_append, not_or] at absent
      obtain ⟨n', inside⟩ := ih h single (n + 2)
      refine ⟨n', Eq.trans ?_ inside⟩
      rw [code, ← List.singleton_append, List.append_assoc, List.append_assoc]
      refine filter_writes_around (by simpa using absent.1) ?_
      simpa using fun hv' => absent.2 (targets_code part' fresh _ hv')
    · obtain ⟨absent, single⟩ : v ∉ condition.targets ++ consequence.targets ∧
          alternative.targets.count v = 1 :=
        count_of_part h hv (by rw [List.count_append]; omega)
      rw [List.mem_append, not_or] at absent
      obtain ⟨n', inside⟩ := ih' h single (n + 2 + consequence.labelCount)
      refine ⟨n', Eq.trans ?_ inside⟩
      rw [code]
      refine filter_writes_around ?_ (by simp)
      simpa using ⟨absent.1, fun hv' => absent.2 (targets_code part fresh _ hv')⟩
  | whileLoop condition body _ ih =>
    rcases List.mem_cons.1 h with rfl | h
    · exact ⟨n, rfl⟩
    rw [targets_whileLoop, List.count_append] at once
    obtain ⟨test, single⟩ := count_of_part h hv once
    obtain ⟨n', inside⟩ := ih h single (n + 3)
    refine ⟨n', Eq.trans ?_ inside⟩
    rw [code, loopCode]
    exact filter_writes_around (by simp) (by simpa using test)
  | forLoop target lower upper body _ ih =>
    rcases List.mem_cons.1 h with rfl | h
    · exact ⟨n, rfl⟩
    have split : (forLoop target lower upper body).targets =
        (lower.targets ++ upper.targets ++ [target]) ++ body.targets := by simp
    rw [split, List.count_append] at once
    obtain ⟨absent, single⟩ := count_of_part h hv once
    simp only [List.mem_append, List.mem_singleton, not_or] at absent
    obtain ⟨n', inside⟩ := ih h single (n + 3)
    refine ⟨n', Eq.trans ?_ inside⟩
    have spelled : (forLoop target lower upper body).code fresh n =
        [declaration target lower, goto (fresh (n + 1)), label (fresh (n + 2))] ++
          body.code fresh (n + 3) ++ [countingStep target, label (fresh (n + 1)),
            gotoIf (fresh (n + 2)) (countingCondition target upper) true,
            label (fresh (n + 3))] := by
      simp [code, loopCode]
    rw [spelled]
    refine filter_writes_around ?_ ?_
    · simpa using ⟨absent.1.1, absent.2⟩
    · simpa using ⟨absent.2, absent.1.2⟩

/-- A declared variable with a single place is written to by its declaration. -/
theorem filter_writes_declaration (hs : s.Structured) {initializer : Expr}
    (h : declaration v initializer ∈ s.parts) (once : s.targets.count v = 1) :
    s.lower.filter (writes v) = [declaration v initializer] := by
  obtain ⟨n, same⟩ :=
    exists_filter_code hs (freshLabel s.labelBound) h (by simp) once 0
  rw [Stmt.lower, same]
  simp [code, writes]

/-- The variable of a counting loop with a single place is written to by the
declaration and by the step of its code. -/
theorem filter_writes_forLoop (hs : s.Structured) {lower upper : Expr} {body : Stmt}
    (h : forLoop v lower upper body ∈ s.parts) (once : s.targets.count v = 1) :
    s.lower.filter (writes v) = [declaration v lower, countingStep v] := by
  obtain ⟨n, same⟩ := exists_filter_code hs (freshLabel s.labelBound) h (by simp) once 0
  have single := (targets_parts s h).count_le v
  simp only [targets_forLoop, List.count_append, List.count_cons_self, once] at single
  have last : v ∉ upper.targets := List.count_eq_zero.1 (by omega)
  have inside : v ∉ body.targets := List.count_eq_zero.1 (by omega)
  have part : body.Structured := by
    cases hs.of_part h with
    | forLoop _ _ _ _ part => exact part
  have nothing := filter_writes_code part inside (freshLabel s.labelBound) (n + 3)
  rw [Stmt.lower, same, code, loopCode]
  simp [writes, nothing, last]

end Bound.Stmt

namespace Machine

open Scriptlet.Bound

/-- A step that changes the entry of a variable runs a statement that writes to
it. -/
theorem exists_writes_of_step {p : Program} {m : Machine} {v : Variable}
    (h : (m.step p).memory.store.get? v ≠ m.memory.store.get? v) :
    ∃ s, p[m.index]? = some s ∧ s.writes v = true := by
  refine Classical.byContradiction fun none => h ?_
  refine keeps_step (P := (·.get? v = m.memory.store.get? v)) (fun s hs => ?_) rfl
  refine outlasts_get? (fun site hsite same => none ⟨s, hs, decide_eq_true ?_⟩) _
  exact List.mem_map.2 ⟨site, hsite, same⟩

end Machine

end Scriptlet
