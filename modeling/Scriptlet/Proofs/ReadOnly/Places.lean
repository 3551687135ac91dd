import Scriptlet.Proofs.Declaring.Sites
import Scriptlet.Proofs.Lowering.Flattening

/-!
# Where read-only variables get values

An assignment that is accepted has a target that can be written. So the
read-only variables among the targets of a tree without problems are those that
declarations and counting loops introduce. They stand in the tree in the order
of their identities, which are new, and therefore each of them once.
-/

namespace Scriptlet

namespace Bound

/-- The read-only variables that get values at some places. -/
def readOnlyTargets (sites : List Site) : List Variable :=
  (sites.map Site.target).filter Variable.isReadOnly

/-- Variables with identities in increasing order, from one number on and below
another. -/
structure Rising (first last : Nat) (vars : List Variable) : Prop where
  increasing : vars.Pairwise (·.id < ·.id)
  between : ∀ v ∈ vars, first ≤ v.id ∧ v.id < last

variable {first between last : Nat} {vars vars' : List Variable}

theorem readOnlyTargets_append (sites sites' : List Site) :
    readOnlyTargets (sites ++ sites') = readOnlyTargets sites ++ readOnlyTargets sites' := by
  rw [readOnlyTargets, List.map_append, List.filter_append]
  rfl

theorem rising_nil (first last : Nat) : Rising first last [] :=
  ⟨.nil, fun _ h => absurd h List.not_mem_nil⟩

/-- The target of a single place, if it is read-only, rises by itself. -/
theorem rising_singleton (site : Site) :
    Rising site.target.id (site.target.id + 1) (readOnlyTargets [site]) := by
  have single : (readOnlyTargets [site]).Sublist [site.target] := List.filter_sublist
  refine ⟨(List.pairwise_singleton _ _).sublist single, fun v hv => ?_⟩
  rw [List.mem_singleton.1 (single.subset hv)]
  exact ⟨Nat.le_refl _, Nat.lt_succ_self _⟩

/-- The bounds of rising variables may be moved apart. -/
theorem Rising.widen (h : Rising first last vars) {first' last' : Nat} (hfirst : first' ≤ first)
    (hlast : last ≤ last') : Rising first' last' vars :=
  ⟨h.increasing, fun v hv =>
    ⟨Nat.le_trans hfirst (h.between v hv).1, Nat.lt_of_lt_of_le (h.between v hv).2 hlast⟩⟩

/-- Rising variables go on rising behind a number that all of them are below. -/
theorem Rising.append (h : Rising first between vars) (h' : Rising between last vars')
    (hfirst : first ≤ between) (hlast : between ≤ last) : Rising first last (vars ++ vars') := by
  refine ⟨List.pairwise_append.2 ⟨h.increasing, h'.increasing, fun v hv w hw => ?_⟩, ?_⟩
  · exact Nat.lt_of_lt_of_le (h.between v hv).2 (h'.between w hw).1
  · intro v hv
    rcases List.mem_append.1 hv with hv | hv
    · exact (h.widen (Nat.le_refl _) hlast).between v hv
    · exact (h'.widen hfirst (Nat.le_refl _)).between v hv

/-- Rising variables are all different. -/
theorem Rising.nodup (h : Rising first last vars) : vars.Nodup := by
  refine h.increasing.imp ?_
  rintro v w hlt rfl
  exact Nat.lt_irrefl v.id hlt

end Bound

namespace Syntax

open Scriptlet.Bound Scriptlet.Frame

mutual

/-- An expression gives values to variables that can be written. -/
theorem Expr.Elaborates.writes_writable {outer : Rows} {here there : Frame} {e : Expr}
    {bound : Bound.Expr} (h : e.Elaborates outer here bound there) (isSkippable : Bool) :
    readOnlyTargets (bound.sites isSkippable) = [] := by
  cases h with
  | literal | name => rfl
  | assignKnown part _ _ writable _ =>
    rw [Bound.Expr.sites, readOnlyTargets_append, part.writes_writable isSkippable]
    simp [readOnlyTargets, writable]
  | assignNew part _ _ =>
    rw [Bound.Expr.sites, readOnlyTargets_append, part.writes_writable isSkippable]
    simp [readOnlyTargets, Frame.next]
  | unary part _ => exact part.writes_writable isSkippable
  | binary part part' _ =>
    rw [Bound.Expr.sites, readOnlyTargets_append, part.writes_writable isSkippable,
      part'.writes_writable]
    rfl
  | grouped part _ => exact part.writes_writable isSkippable
  | call parts _ _ => exact parts.writes_writable isSkippable

/-- A row of expressions gives values to variables that can be written. -/
theorem Expr.ElaborateAll.writes_writable {outer : Rows} {here there : Frame} {es : List Expr}
    {bounds : List Bound.Expr} (h : Expr.ElaborateAll outer here es bounds there)
    (isSkippable : Bool) : readOnlyTargets (Bound.Expr.sitesAll isSkippable bounds) = [] := by
  cases h with
  | nil => rfl
  | cons part _ parts =>
    rw [Bound.Expr.sitesAll, readOnlyTargets_append, part.writes_writable isSkippable,
      parts.writes_writable isSkippable]
    rfl

end

mutual

/-- The read-only variables to which a statement gives values rise from the next
identity in front of it to that behind it. -/
theorem Stmt.Elaborates.rising {outer : Rows} {here there : Frame} {s : Stmt}
    {bound : Bound.Stmt} (h : s.Elaborates outer here bound there) :
    Rising here.nextId there.nextId (readOnlyTargets bound.sites) := by
  cases h with
  | block parts => exact parts.rising
  | declaration part _ _ _ =>
    rw [Bound.Stmt.sites, readOnlyTargets_append, part.writes_writable false]
    exact (rising_singleton _).widen part.grows.nextId_le (Nat.le_refl _)
  | ifThen test _ part | whileLoop test _ part =>
    rw [Bound.Stmt.sites, readOnlyTargets_append, test.writes_writable false]
    exact part.rising.widen test.grows.nextId_le (Nat.le_refl _)
  | ifElse test _ part part' =>
    rw [Bound.Stmt.sites, readOnlyTargets_append, readOnlyTargets_append,
      test.writes_writable false]
    have sides := part.rising.append part'.rising part.grows.nextId_le part'.grows.nextId_le
    exact sides.widen test.grows.nextId_le (Nat.le_refl _)
  | @forLoop _ _ _ between' _ _ identifier _ _ _ _ _ _ _ _ first _ last _ _ part =>
    have counted : between'.nextId + 1 ≤ _ := part.grows.nextId_le
    have before := Nat.le_trans first.grows.nextId_le last.grows.nextId_le
    have target := rising_singleton ⟨between'.next identifier.text .int true, false⟩
    rw [Bound.Stmt.sites, readOnlyTargets_append, readOnlyTargets_append,
      first.writes_writable false, last.writes_writable false, ← List.singleton_append,
      readOnlyTargets_append]
    exact (target.append part.rising (Nat.le_succ _) counted).widen before (Nat.le_refl _)
  | expression part =>
    rw [Bound.Stmt.sites, part.writes_writable false]
    exact rising_nil _ _

/-- The read-only variables to which a row of statements gives values rise from
the next identity in front of it to that behind it. -/
theorem Stmt.ElaborateAll.rising {outer : Rows} {here there : Frame} {ss : List Stmt}
    {bounds : List Bound.Stmt} (h : Stmt.ElaborateAll outer here ss bounds there) :
    Rising here.nextId there.nextId (readOnlyTargets (Bound.Stmt.sitesAll bounds)) := by
  cases h with
  | nil => exact rising_nil _ _
  | cons part parts =>
    rw [Bound.Stmt.sitesAll, readOnlyTargets_append]
    exact part.rising.append parts.rising part.grows.nextId_le parts.grows.nextId_le

end

mutual

/-- The variables of counting loops are read-only. -/
theorem Stmt.Elaborates.isReadOnly_of_forLoop {outer : Rows} {here there : Frame} {s : Stmt}
    {bound : Bound.Stmt} (h : s.Elaborates outer here bound there) {v : Variable}
    {lower upper : Bound.Expr} {body : Bound.Stmt}
    (part : .forLoop v lower upper body ∈ bound.parts) : v.isReadOnly = true := by
  cases h with
  | block inside =>
    rcases List.mem_cons.1 part with part | part
    · cases part
    · exact inside.isReadOnly_of_forLoop part
  | declaration | expression => cases List.mem_singleton.1 part
  | ifThen _ _ inside | whileLoop _ _ inside =>
    rcases List.mem_cons.1 part with part | part
    · cases part
    · exact inside.isReadOnly_of_forLoop part
  | ifElse _ _ inside inside' =>
    rcases List.mem_cons.1 part with part | part
    · cases part
    · rcases List.mem_append.1 part with part | part
      · exact inside.isReadOnly_of_forLoop part
      · exact inside'.isReadOnly_of_forLoop part
  | forLoop _ _ _ _ _ inside =>
    rcases List.mem_cons.1 part with part | part
    · cases part
      rfl
    · exact inside.isReadOnly_of_forLoop part

/-- The variables of counting loops in a row are read-only. -/
theorem Stmt.ElaborateAll.isReadOnly_of_forLoop {outer : Rows} {here there : Frame}
    {ss : List Stmt} {bounds : List Bound.Stmt} (h : Stmt.ElaborateAll outer here ss bounds there)
    {v : Variable} {lower upper : Bound.Expr} {body : Bound.Stmt}
    (part : .forLoop v lower upper body ∈ Bound.Stmt.partsAll bounds) : v.isReadOnly = true := by
  cases h with
  | nil => cases part
  | cons inside others =>
    rcases List.mem_append.1 part with part | part
    · exact inside.isReadOnly_of_forLoop part
    · exact others.isReadOnly_of_forLoop part

end

end Syntax

end Scriptlet
