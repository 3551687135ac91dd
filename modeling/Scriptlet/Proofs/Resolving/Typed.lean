import Scriptlet.Proofs.Resolving.Rules
import Scriptlet.Proofs.Typing.WellTyped

/-!
# What the rules accept is well typed

The rules ask for types wherever two parts have to fit together, so what a tree
means is well typed as long as the visible variables have meaningful types, and
the variables that the tree declares have such types again.
-/

namespace Scriptlet

/-- No visible variable has the type of a meaningless expression. -/
def Rows.Meaningful (rows : Rows) : Prop := ∀ vars ∈ rows, ∀ v ∈ vars, v.type ≠ .error

namespace Frame

variable {here inner : Frame} {outer : Rows} {name : String} {type : Ty} {isReadOnly : Bool}

/-- A variable with a meaningful type may be declared. -/
theorem meaningful_declare (h : (here.rows outer).Meaningful) (ht : type ≠ .error) :
    ((here.declare name type isReadOnly).rows outer).Meaningful := by
  intro vars hvars v hv
  rw [rows, List.mem_cons] at hvars
  rcases hvars with rfl | hvars
  · rw [declare, List.mem_append, List.mem_singleton] at hv
    rcases hv with hv | rfl
    · exact h _ List.mem_cons_self v hv
    · exact ht
  · exact h vars (List.mem_cons_of_mem _ hvars) v hv

/-- An empty scope has no meaningless variables of its own. -/
theorem meaningful_fresh {nextId : Nat} (h : outer.Meaningful) :
    ((Frame.fresh nextId).rows outer).Meaningful := by
  intro vars hvars v hv
  rw [rows, List.mem_cons] at hvars
  rcases hvars with rfl | hvars
  · cases hv
  · exact h vars hvars v hv

end Frame

namespace Syntax

open Scriptlet.Frame

mutual

/-- What an expression means is well typed, and the variables it declares have
meaningful types. -/
theorem Expr.Elaborates.wellTyped {outer : Rows} {here there : Frame} {e : Expr}
    {bound : Bound.Expr} (h : e.Elaborates outer here bound there)
    (hr : (here.rows outer).Meaningful) :
    bound.WellTyped ∧ (there.rows outer).Meaningful := by
  cases h with
  | literal token => exact ⟨.literal _, hr⟩
  | name _ visible =>
    obtain ⟨⟨vars, hvars, hv⟩, -⟩ := Rows.mem_of_lookup? visible
    exact ⟨.name _ (hr vars hvars _ hv), hr⟩
  | assignKnown part _ _ _ fits =>
    have hpart := part.wellTyped hr
    exact ⟨.assignment _ _ hpart.1 fits, hpart.2⟩
  | assignNew part _ _ =>
    have hpart := part.wellTyped hr
    exact ⟨.assignment _ _ hpart.1 rfl, meaningful_declare hpart.2 hpart.1.type_ne_error⟩
  | unary part row =>
    have hpart := part.wellTyped hr
    obtain ⟨hrow, -, hoperand⟩ := UnaryOperator.find?_eq_some row
    exact ⟨.unary _ _ hrow hpart.1 hoperand.symm, hpart.2⟩
  | binary part part' row =>
    have hpart := part.wellTyped hr
    have hpart' := part'.wellTyped hpart.2
    obtain ⟨hrow, -, hleft, hright⟩ := BinaryOperator.find?_eq_some row
    exact ⟨.binary _ _ _ hrow hpart.1 hpart'.1 hleft.symm hright.symm, hpart'.2⟩
  | grouped part _ => exact part.wellTyped hr
  | call parts known fit =>
    have hparts := parts.wellTyped hr
    exact ⟨.call _ _ (List.mem_of_find?_eq_some known) hparts.1 fit, hparts.2⟩

/-- What the expressions of a row mean is well typed. -/
theorem Expr.ElaborateAll.wellTyped {outer : Rows} {here there : Frame} {es : List Expr}
    {bounds : List Bound.Expr}
    (h : Expr.ElaborateAll outer here es bounds there) (hr : (here.rows outer).Meaningful) :
    (∀ bound ∈ bounds, bound.WellTyped) ∧ (there.rows outer).Meaningful := by
  cases h with
  | nil => exact ⟨fun _ hb => absurd hb List.not_mem_nil, hr⟩
  | cons part _ parts =>
    have hpart := part.wellTyped hr
    have hparts := parts.wellTyped hpart.2
    refine ⟨fun bound hb => ?_, hparts.2⟩
    rcases List.mem_cons.1 hb with rfl | hb
    · exact hpart.1
    · exact hparts.1 bound hb

end

mutual

/-- What a statement means is well typed, and the variables it declares have
meaningful types. -/
theorem Stmt.Elaborates.wellTyped {outer : Rows} {here there : Frame} {s : Stmt}
    {bound : Bound.Stmt} (h : s.Elaborates outer here bound there)
    (hr : (here.rows outer).Meaningful) :
    bound.WellTyped ∧ (there.rows outer).Meaningful := by
  cases h with
  | block parts => exact ⟨.block _ (parts.wellTyped (meaningful_fresh hr)).1, hr⟩
  | declaration part _ _ _ =>
    have hpart := part.wellTyped hr
    exact ⟨.declaration _ _ hpart.1 rfl, meaningful_declare hpart.2 hpart.1.type_ne_error⟩
  | ifThen test truth part =>
    have htest := test.wellTyped hr
    have hpart := part.wellTyped (meaningful_fresh htest.2)
    exact ⟨.ifThen _ _ htest.1 truth hpart.1, htest.2⟩
  | ifElse test truth part part' =>
    have htest := test.wellTyped hr
    have hpart := part.wellTyped (meaningful_fresh htest.2)
    have hpart' := part'.wellTyped (meaningful_fresh htest.2)
    exact ⟨.ifElse _ _ _ htest.1 truth hpart.1 hpart'.1, htest.2⟩
  | whileLoop test truth part =>
    have htest := test.wellTyped hr
    have hpart := part.wellTyped (meaningful_fresh htest.2)
    exact ⟨.whileLoop _ _ htest.1 truth hpart.1, htest.2⟩
  | forLoop first count last count' _ part =>
    have hfirst := first.wellTyped hr
    have hlast := last.wellTyped hfirst.2
    have hpart := part.wellTyped (meaningful_declare (meaningful_fresh hlast.2) (by decide))
    exact ⟨.forLoop _ _ _ _ hfirst.1 hlast.1 rfl count count' hpart.1, hlast.2⟩
  | expression part =>
    have hpart := part.wellTyped hr
    exact ⟨.expression _ hpart.1, hpart.2⟩

/-- What the statements of a row mean is well typed. -/
theorem Stmt.ElaborateAll.wellTyped {outer : Rows} {here there : Frame} {ss : List Stmt}
    {bounds : List Bound.Stmt}
    (h : Stmt.ElaborateAll outer here ss bounds there) (hr : (here.rows outer).Meaningful) :
    (∀ bound ∈ bounds, bound.WellTyped) ∧ (there.rows outer).Meaningful := by
  cases h with
  | nil => exact ⟨fun _ hb => absurd hb List.not_mem_nil, hr⟩
  | cons part parts =>
    have hpart := part.wellTyped hr
    have hparts := parts.wellTyped hpart.2
    refine ⟨fun bound hb => ?_, hparts.2⟩
    rcases List.mem_cons.1 hb with rfl | hb
    · exact hpart.1
    · exact hparts.1 bound hb

end

end Syntax

end Scriptlet
