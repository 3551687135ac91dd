import Scriptlet.Proofs.Lowering.Layout
import Scriptlet.Proofs.Typing.Values

/-!
# Flat programs that are well typed

A flat program is well typed if each of its statements is and every jump goes to
a label that the program places. The code of a well-typed statement is such a
program. A machine that runs it keeps the store typed and stops with permitted
faults only.
-/

namespace Scriptlet

namespace Bound.Stmt

/-- A statement of a flat program is well typed, and its jumps have targets. -/
inductive Fits (p : Program) : Stmt → Prop where
  | declaration (target : Variable) (initializer : Expr) (part : initializer.WellTyped)
      (fits : initializer.type = target.type) : Fits p (declaration target initializer)
  | expression (inner : Expr) (part : inner.WellTyped) : Fits p (expression inner)
  | goto (target : Label) (placed : label target ∈ p) : Fits p (goto target)
  | gotoIf (target : Label) (condition : Expr) (expected : Bool) (test : condition.WellTyped)
      (truth : condition.type = .bool) (placed : label target ∈ p) :
      Fits p (gotoIf target condition expected)
  | label (placed : Label) : Fits p (label placed)

/-- A statement fits into every program that places as many labels. -/
theorem Fits.mono {p q : Program} {s : Stmt} (h : s.Fits p)
    (hpq : ∀ target, Stmt.label target ∈ p → Stmt.label target ∈ q) : s.Fits q := by
  cases h with
  | declaration _ _ part fits => exact .declaration _ _ part fits
  | expression _ part => exact .expression _ part
  | goto target placed => exact .goto target (hpq target placed)
  | gotoIf target _ _ test truth placed => exact .gotoIf target _ _ test truth (hpq target placed)
  | label placed => exact .label placed

end Bound.Stmt

namespace Program

open Scriptlet.Bound

/-- Every statement of a flat program fits into it. -/
def WellTyped (p : Program) : Prop := ∀ s ∈ p, s.Fits p

/-- Some code fits into a program. -/
def FitsIn (code p : Program) : Prop := ∀ s ∈ code, s.Fits p

variable {p code code' : Program} {s : Stmt}

theorem fitsIn_nil : FitsIn [] p := fun _ h => absurd h List.not_mem_nil

/-- Code fits if its first statement and the others do. -/
theorem fitsIn_cons (h : s.Fits p) (h' : code.FitsIn p) : FitsIn (s :: code) p := by
  intro t ht
  rcases List.mem_cons.1 ht with rfl | ht
  · exact h
  · exact h' t ht

/-- Code fits if its two parts do. -/
theorem fitsIn_append (h : code.FitsIn p) (h' : code'.FitsIn p) : (code ++ code').FitsIn p := by
  intro t ht
  rcases List.mem_append.1 ht with ht | ht
  · exact h t ht
  · exact h' t ht

/-- Well-typed code fits into every program that it is a part of. -/
theorem WellTyped.fitsIn (h : code.WellTyped) (hp : ∀ s ∈ code, s ∈ p) : code.FitsIn p :=
  fun s hs => (h s hs).mono fun _ placed => hp _ placed

end Program

namespace Bound.Stmt

open Program

/-- The code of a loop is well typed if its condition and the code of its body
are. -/
theorem wellTyped_loopCode (check body finish : Label) {condition : Expr} {bodyCode : Program}
    (test : condition.WellTyped) (truth : condition.type = .bool) (part : bodyCode.WellTyped) :
    (loopCode check body finish condition bodyCode).WellTyped := by
  have inside : ∀ s ∈ bodyCode, s ∈ loopCode check body finish condition bodyCode := by
    intro s hs
    simp [loopCode, hs]
  have checkPlaced : label check ∈ loopCode check body finish condition bodyCode := by
    simp [loopCode]
  have bodyPlaced : label body ∈ loopCode check body finish condition bodyCode := by
    simp [loopCode]
  refine fitsIn_append (fitsIn_append ?_ (part.fitsIn inside)) ?_
  · exact fitsIn_cons (.goto _ checkPlaced) (fitsIn_cons (.label _) fitsIn_nil)
  · exact fitsIn_cons (.label _)
      (fitsIn_cons (.gotoIf _ _ _ test truth bodyPlaced) (fitsIn_cons (.label _) fitsIn_nil))

/-- The condition of a counting loop is well typed. -/
theorem wellTyped_countingCondition {target : Variable} {upper : Expr}
    (counts : target.type = .int) (last : upper.WellTyped) (fits : upper.type = .int) :
    (countingCondition target upper).WellTyped := by
  have meaningful : target.type ≠ .error := by simp [counts]
  exact .binary _ _ _ (by decide) (.name target meaningful) last counts fits

/-- The step of a counting loop is well typed. -/
theorem fits_countingStep {target : Variable} (counts : target.type = .int) (p : Program) :
    (countingStep target).Fits p := by
  have meaningful : target.type ≠ .error := by simp [counts]
  have sum : Expr.WellTyped (.binary (.name target) ⟨.plus, .addition, .int, .int, .int⟩
      (.literal (.int 1))) :=
    .binary _ _ _ (by decide) (.name target meaningful) (.literal _) counts rfl
  exact .expression _ (.assignment target _ sum counts.symm)

/-- The code of a row is well typed if the code of each of its statements is. -/
theorem wellTyped_codeAll {ss : List Stmt} (fresh : Nat → Label)
    (h : ∀ s ∈ ss, ∀ n, (s.code fresh n).WellTyped) (n : Nat) : (codeAll fresh n ss).WellTyped := by
  induction ss generalizing n with
  | nil => exact fitsIn_nil
  | cons s ss ih =>
    have head := h s List.mem_cons_self n
    have tail := ih (fun t ht => h t (List.mem_cons_of_mem s ht)) (n + s.labelCount)
    rw [codeAll]
    exact fitsIn_append (head.fitsIn fun t ht => List.mem_append_left _ ht)
      (tail.fitsIn fun t ht => List.mem_append_right _ ht)

/-- The code of a well-typed statement is well typed. -/
theorem WellTyped.code {s : Stmt} (h : s.WellTyped) (fresh : Nat → Label) (n : Nat) :
    (s.code fresh n).WellTyped := by
  induction h generalizing n with
  | block ss _ ih => exact wellTyped_codeAll fresh ih n
  | declaration target initializer part fits =>
    exact fitsIn_cons (.declaration target initializer part fits) fitsIn_nil
  | expression inner part => exact fitsIn_cons (.expression inner part) fitsIn_nil
  | ifThen condition consequence test truth _ ih =>
    rw [Stmt.code]
    refine fitsIn_append (fitsIn_cons (.gotoIf _ _ _ test truth (by simp)) ?_)
      (fitsIn_cons (.label _) fitsIn_nil)
    exact (ih (n + 1)).fitsIn fun t ht => by simp [ht]
  | ifElse condition consequence alternative test truth _ _ ih ih' =>
    rw [Stmt.code]
    refine fitsIn_append (fitsIn_append (fitsIn_append (fitsIn_cons ?_ ?_) ?_) ?_)
      (fitsIn_cons (.label _) fitsIn_nil)
    · exact .gotoIf _ _ _ test truth (by simp)
    · exact (ih (n + 2)).fitsIn fun t ht => by simp [ht]
    · exact fitsIn_cons (.goto _ (by simp)) (fitsIn_cons (.label _) fitsIn_nil)
    · exact (ih' _).fitsIn fun t ht => by simp [ht]
  | whileLoop condition body test truth _ ih =>
    exact wellTyped_loopCode _ _ _ test truth (ih (n + 3))
  | forLoop target lower upper body first last counts fits fits' _ ih =>
    have round : (body.code fresh (n + 3) ++ [countingStep target]).WellTyped := by
      refine fitsIn_append ((ih (n + 3)).fitsIn fun t ht => by simp [ht]) ?_
      exact fitsIn_cons (fits_countingStep counts _) fitsIn_nil
    have test := wellTyped_countingCondition counts last fits'
    have looping := wellTyped_loopCode (fresh (n + 1)) (fresh (n + 2)) (fresh (n + 3)) test rfl
      round
    rw [Stmt.code]
    exact fitsIn_cons (.declaration _ _ first (fits.trans counts.symm))
      (looping.fitsIn fun t ht => List.mem_cons_of_mem _ ht)

end Bound.Stmt

namespace Machine

open Scriptlet.Bound Evaluating Program

/-- A machine keeps the store typed, and stops with permitted faults only. -/
def Sound : Progress → Prop
  | .running m => m.memory.store.Typed
  | .halted (.ok _) memory => memory.store.Typed
  | .halted (.error fault) memory => fault.Permitted ∧ memory.store.Typed

variable {p : Program}

/-- A jump to a label that is placed goes somewhere. -/
theorem exists_goto {target : Label} (h : .label target ∈ p) :
    ∃ index, goto p target = .ok index := by
  obtain ⟨i, hi⟩ := Option.isSome_iff_exists.1 (placement?_isSome.2 h)
  exact ⟨i + 1, by rw [goto, hi]⟩

/-- What a statement of a well-typed program does keeps the store typed. -/
theorem ensures_execute {s : Stmt} (h : s.Fits p) (index : Nat) (last : Value) :
    Ensures TypedMemory (execute p index last s) (fun _ memory => TypedMemory memory)
      PermittedFault := by
  cases h with
  | declaration target initializer part fits =>
    refine part.ensures.bind fun value => ensures_of_and fun htype => ?_
    refine (ensures_write fun memory hm => ?_).bind fun _ => ensures_pure fun memory hm => hm
    exact hm.insert (htype.trans fits)
  | expression inner part =>
    exact part.ensures.bind fun value => ensures_pure fun memory hm => hm.2
  | goto target placed =>
    obtain ⟨next, hnext⟩ := exists_goto placed
    intro memory hm
    have jumps : (execute p index last (.goto target)).on memory = (.ok (next, last), memory) := by
      simp [execute, hnext, Except.map]
    rw [jumps]
    exact hm
  | gotoIf target condition expected test truth placed =>
    obtain ⟨next, hnext⟩ := exists_goto placed
    refine test.ensures.bind fun value => ensures_of_and fun htype => ?_
    obtain ⟨b, rfl⟩ := Value.type_eq_bool_iff.1 (htype.trans truth)
    show Ensures _ (if b = expected then _ else _) _ _
    split
    · intro memory hm
      simpa [hnext, Except.map] using hm
    · exact ensures_pure fun memory hm => hm
  | label placed => exact ensures_pure fun memory hm => hm

/-- A step of a well-typed program is sound. -/
theorem sound_step (hp : p.WellTyped) {m : Machine} (hm : m.memory.store.Typed) :
    Sound (m.step p) := by
  cases hs : p[m.index]? with
  | none =>
    have ends : m.step p = .halted (.ok m.last) m.memory := by simp only [step, hs]
    rw [ends]
    exact hm
  | some s =>
    have runs := ensures_execute (hp s (List.mem_of_getElem? hs)) m.index m.last
    simp only [step, hs]
    rcases hexecute : (execute p m.index m.last s).on m.memory with ⟨fault | ⟨index, last⟩, behind⟩
    · exact runs.of_error hm hexecute
    · exact runs.of_ok hm hexecute

/-- A run of a well-typed program is sound, however long it is. -/
theorem sound_advance (hp : p.WellTyped) (steps : Nat) {m : Machine}
    (hm : m.memory.store.Typed) : Sound (m.advance p steps) := by
  induction steps generalizing m with
  | zero => exact hm
  | succ steps ih =>
    have first := sound_step hp hm
    rw [advance]
    cases hs : m.step p with
    | running next =>
      rw [hs] at first
      exact ih first
    | halted result memory => rwa [hs] at first

end Machine

end Scriptlet
