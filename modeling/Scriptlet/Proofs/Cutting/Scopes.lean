import Scriptlet.Proofs.Resolving.Rules

/-!
# What is visible decides what a tree means

The rules ask of the scopes around a tree only which variable a name stands for
and which names are still free. How the visible variables are spread over the
scopes makes no difference, so the same tree means the same in a block, where
all variables stand in one scope, and behind submissions, each of which has a
scope of its own.
-/

namespace Scriptlet

namespace Frame

/-- The same variables are visible in two scopes, each of which stands inside
others. The second scope counts on from the same identity and holds no names
that the first does not hold. -/
structure Alike (outer outer' : Rows) (here here' : Frame) : Prop where
  lookup?_eq : ∀ name, (here'.rows outer').lookup? name = (here.rows outer).lookup? name
  free : ∀ name, here.vars.find? (·.name == name) = none →
    here'.vars.find? (·.name == name) = none
  nextId_eq : here'.nextId = here.nextId

variable {outer outer' : Rows} {here here' inner inner' : Frame} {name : String} {type : Ty}
  {isReadOnly : Bool}

namespace Alike

/-- The next variables are the same. -/
theorem next_eq (h : Alike outer outer' here here') :
    here'.next name type isReadOnly = here.next name type isReadOnly := by
  rw [next, next, h.nextId_eq]

/-- A variable may be declared in both scopes. -/
theorem declare (h : Alike outer outer' here here')
    (free : here.vars.find? (·.name == name) = none) :
    Alike outer outer' (here.declare name type isReadOnly)
      (here'.declare name type isReadOnly) := by
  have free' := h.free name free
  refine ⟨fun sought => ?_, fun sought hfree => ?_, congrArg (· + 1) h.nextId_eq⟩
  · rw [lookup?_declare free, lookup?_declare free', h.next_eq, h.lookup?_eq]
  · simp only [Frame.declare, List.find?_append, Option.or_eq_none_iff] at hfree ⊢
    rw [h.next_eq]
    exact ⟨h.free sought hfree.1, hfree.2⟩

/-- A scope may be opened in both scopes. -/
theorem fresh (h : Alike outer outer' here here') :
    Alike (here.rows outer) (here'.rows outer') (.fresh here.nextId) (.fresh here'.nextId) :=
  ⟨h.lookup?_eq, fun _ _ => rfl, h.nextId_eq⟩

/-- Both scopes may be closed again. -/
theorem behind (h : Alike outer outer' here here')
    (h' : Alike (here.rows outer) (here'.rows outer') inner inner') :
    Alike outer outer' (here.behind inner) (here'.behind inner') :=
  ⟨h.lookup?_eq, h.free, h'.nextId_eq⟩

/-- The scope of a submission that was met may be followed by a scope of its own
for the next submission. -/
theorem follow (h : Alike outer outer' here here') :
    Alike outer (here'.rows outer') here (.fresh here'.nextId) :=
  ⟨h.lookup?_eq, fun _ _ => rfl, h.nextId_eq⟩

end Alike

end Frame

namespace Syntax

open Scriptlet.Frame

mutual

/-- An expression means the same where the same variables are visible. -/
theorem Expr.Elaborates.alike {outer outer' : Rows} {here there here' : Frame} {e : Expr}
    {bound : Bound.Expr} (h : e.Elaborates outer here bound there)
    (alike : Alike outer outer' here here') :
    ∃ there', e.Elaborates outer' here' bound there' ∧ Alike outer outer' there there' := by
  cases h with
  | literal token => exact ⟨here', .literal token, alike⟩
  | name present visible =>
    exact ⟨here', .name present ((alike.lookup?_eq _).trans visible), alike⟩
  | assignKnown part valued visible writable fits =>
    obtain ⟨there', value, behind⟩ := part.alike alike
    have visible' := (behind.lookup?_eq _).trans visible
    exact ⟨there', .assignKnown value valued visible' writable fits, behind⟩
  | assignNew part valued invisible =>
    obtain ⟨there', value, behind⟩ := part.alike alike
    have invisible' := (behind.lookup?_eq _).trans invisible
    refine ⟨_, ?_, behind.declare (Rows.find?_of_lookup?_eq_none invisible)⟩
    rw [← behind.next_eq]
    exact .assignNew value valued invisible'
  | unary part row =>
    obtain ⟨there', operand, behind⟩ := part.alike alike
    exact ⟨there', .unary operand row, behind⟩
  | binary part part' row =>
    obtain ⟨between', left, between⟩ := part.alike alike
    obtain ⟨there', right, behind⟩ := part'.alike between
    exact ⟨there', .binary left right row, behind⟩
  | grouped part valued =>
    obtain ⟨there', inner, behind⟩ := part.alike alike
    exact ⟨there', .grouped inner valued, behind⟩
  | call parts known fit =>
    obtain ⟨there', arguments, behind⟩ := parts.alike alike
    exact ⟨there', .call arguments known fit, behind⟩

/-- A row of expressions means the same where the same variables are visible. -/
theorem Expr.ElaborateAll.alike {outer outer' : Rows} {here there here' : Frame} {es : List Expr}
    {bounds : List Bound.Expr} (h : Expr.ElaborateAll outer here es bounds there)
    (alike : Alike outer outer' here here') :
    ∃ there', Expr.ElaborateAll outer' here' es bounds there' ∧
      Alike outer outer' there there' := by
  cases h with
  | nil => exact ⟨here', .nil, alike⟩
  | cons part valued parts =>
    obtain ⟨between', first, between⟩ := part.alike alike
    obtain ⟨there', others, behind⟩ := parts.alike between
    exact ⟨there', .cons first valued others, behind⟩

end

mutual

/-- A statement means the same where the same variables are visible. -/
theorem Stmt.Elaborates.alike {outer outer' : Rows} {here there here' : Frame} {s : Stmt}
    {bound : Bound.Stmt} (h : s.Elaborates outer here bound there)
    (alike : Alike outer outer' here here') :
    ∃ there', s.Elaborates outer' here' bound there' ∧ Alike outer outer' there there' := by
  cases h with
  | block parts =>
    obtain ⟨inner', statements, inside⟩ := parts.alike alike.fresh
    exact ⟨_, .block statements, alike.behind inside⟩
  | declaration part valued present free =>
    obtain ⟨there', initializer, behind⟩ := part.alike alike
    refine ⟨_, ?_, behind.declare free⟩
    rw [← behind.next_eq]
    exact .declaration initializer valued present (behind.free _ free)
  | ifThen test truth part =>
    obtain ⟨between', condition, between⟩ := test.alike alike
    obtain ⟨inner', consequence, inside⟩ := part.alike between.fresh
    exact ⟨_, .ifThen condition truth consequence, between.behind inside⟩
  | ifElse test truth part part' =>
    obtain ⟨between', condition, between⟩ := test.alike alike
    obtain ⟨inner', consequence, inside⟩ := part.alike between.fresh
    obtain ⟨inner'', alternative, inside'⟩ := part'.alike (between.behind inside).fresh
    exact ⟨_, .ifElse condition truth consequence alternative, between.behind inside'⟩
  | whileLoop test truth part =>
    obtain ⟨between', condition, between⟩ := test.alike alike
    obtain ⟨inner', body, inside⟩ := part.alike between.fresh
    exact ⟨_, .whileLoop condition truth body, between.behind inside⟩
  | forLoop first count last count' present part =>
    obtain ⟨between', lower, between⟩ := first.alike alike
    obtain ⟨between'', upper, behind⟩ := last.alike between
    obtain ⟨inner', body, inside⟩ := part.alike (behind.fresh.declare rfl)
    refine ⟨_, ?_, behind.behind inside⟩
    rw [← behind.next_eq]
    exact .forLoop lower count upper count' present body
  | expression part =>
    obtain ⟨there', inner, behind⟩ := part.alike alike
    exact ⟨there', .expression inner, behind⟩

/-- A row of statements means the same where the same variables are visible. -/
theorem Stmt.ElaborateAll.alike {outer outer' : Rows} {here there here' : Frame} {ss : List Stmt}
    {bounds : List Bound.Stmt} (h : Stmt.ElaborateAll outer here ss bounds there)
    (alike : Alike outer outer' here here') :
    ∃ there', Stmt.ElaborateAll outer' here' ss bounds there' ∧
      Alike outer outer' there there' := by
  cases h with
  | nil => exact ⟨here', .nil, alike⟩
  | cons part parts =>
    obtain ⟨between', first, between⟩ := part.alike alike
    obtain ⟨there', others, behind⟩ := parts.alike between
    exact ⟨there', .cons first others, behind⟩

end

end Syntax

end Scriptlet
