import Scriptlet.Proofs.Resolving.Rules

/-!
# How a scope grows

Whatever is met in a scope, the scope keeps its variables and only gets new ones
behind them. New variables have identities of their own and names that the scope
did not hold before.
-/

namespace Scriptlet

namespace Frame

/-- A scope has become another by declaring some more variables. -/
structure Grows (here there : Frame) : Prop where
  /-- The new variables stand behind the old ones and are told apart by new
  identities. -/
  extends_vars : ∃ new, there.vars = here.vars ++ new ∧
    ∀ v ∈ new, here.nextId ≤ v.id ∧ v.id < there.nextId
  nextId_le : here.nextId ≤ there.nextId
  /-- No two variables of the scope get the same name. -/
  distinct : (here.vars.map Variable.name).Nodup → (there.vars.map Variable.name).Nodup

variable {here between there inner : Frame} {name : String} {type : Ty} {isReadOnly : Bool}

theorem Grows.refl (here : Frame) : here.Grows here :=
  ⟨⟨[], by simp⟩, Nat.le_refl _, id⟩

/-- A scope may grow twice. -/
theorem Grows.trans (h : here.Grows between) (h' : between.Grows there) : here.Grows there := by
  obtain ⟨new, hvars, hnew⟩ := h.extends_vars
  obtain ⟨new', hvars', hnew'⟩ := h'.extends_vars
  have hle := h.nextId_le
  have hle' := h'.nextId_le
  refine ⟨⟨new ++ new', ?_, ?_⟩, Nat.le_trans hle hle', fun hd => h'.distinct (h.distinct hd)⟩
  · rw [hvars', hvars, List.append_assoc]
  · intro v hv
    rcases List.mem_append.1 hv with hv | hv
    · have := hnew v hv
      omega
    · have := hnew' v hv
      omega

/-- A declaration of a name that the scope does not hold makes it grow. -/
theorem grows_declare (free : here.vars.find? (·.name == name) = none) :
    here.Grows (here.declare name type isReadOnly) := by
  refine ⟨⟨[here.next name type isReadOnly], rfl, ?_⟩, Nat.le_succ _, fun hd => ?_⟩
  · intro v hv
    obtain rfl := List.mem_singleton.1 hv
    exact ⟨Nat.le_refl _, Nat.lt_succ_self _⟩
  · rw [List.find?_eq_none] at free
    rw [declare, List.map_append, List.nodup_append]
    refine ⟨hd, by simp, ?_⟩
    intro a ha b hb hab
    obtain ⟨v, hv, rfl⟩ := List.mem_map.1 ha
    obtain rfl : b = name := by simpa [next] using hb
    exact free v hv (by simpa using hab)

/-- A scope keeps its variables behind a scope inside it. -/
theorem Grows.behind (h : (Frame.fresh here.nextId).Grows inner) : here.Grows (here.behind inner) :=
  ⟨⟨[], by simp [Frame.behind]⟩, h.nextId_le, id⟩

end Frame

namespace Syntax

open Scriptlet.Frame

mutual

/-- An expression makes the scope grow in which it is met. -/
theorem Expr.Elaborates.grows {outer : Rows} {here there : Frame} {e : Expr}
    {bound : Bound.Expr} (h : e.Elaborates outer here bound there) : here.Grows there := by
  cases h with
  | literal | name => exact .refl _
  | assignKnown part | unary part | grouped part => exact part.grows
  | assignNew part _ invisible =>
    exact part.grows.trans (grows_declare (Rows.find?_of_lookup?_eq_none invisible))
  | binary part part' => exact part.grows.trans part'.grows
  | call parts => exact parts.grows

/-- A row of expressions makes the scope grow in which it is met. -/
theorem Expr.ElaborateAll.grows {outer : Rows} {here there : Frame} {es : List Expr}
    {bounds : List Bound.Expr} (h : Expr.ElaborateAll outer here es bounds there) :
    here.Grows there := by
  cases h with
  | nil => exact .refl _
  | cons part _ parts => exact part.grows.trans parts.grows

end

mutual

/-- A statement makes the scope grow in which it is met. -/
theorem Stmt.Elaborates.grows {outer : Rows} {here there : Frame} {s : Stmt}
    {bound : Bound.Stmt} (h : s.Elaborates outer here bound there) : here.Grows there := by
  cases h with
  | block parts => exact parts.grows.behind
  | declaration part _ _ free => exact part.grows.trans (grows_declare free)
  | ifThen test _ part | whileLoop test _ part => exact test.grows.trans part.grows.behind
  | @ifElse _ _ between inner _ _ _ _ _ _ _ _ _ test _ part part' =>
    have second : (between.behind inner).Grows ((between.behind inner).behind _) :=
      Grows.behind part'.grows
    exact test.grows.trans (part.grows.behind.trans second)
  | forLoop first _ last _ _ part =>
    have inside := (grows_declare rfl).trans part.grows
    exact first.grows.trans (last.grows.trans inside.behind)
  | expression part => exact part.grows

/-- A row of statements makes the scope grow in which it is met. -/
theorem Stmt.ElaborateAll.grows {outer : Rows} {here there : Frame} {ss : List Stmt}
    {bounds : List Bound.Stmt} (h : Stmt.ElaborateAll outer here ss bounds there) :
    here.Grows there := by
  cases h with
  | nil => exact .refl _
  | cons part parts => exact part.grows.trans parts.grows

end

end Syntax

end Scriptlet
