import Scriptlet.Proofs.Resolving.Growth

/-!
# Where variables get values

The places of a bound tree at which variables are given values, in the order in
which their names are declared. A place inside the right operand of a logical
operator can be passed by in a run, so that the order in which names are
declared is not the order in which variables get values there.
-/

namespace Scriptlet

namespace Bound

/-- A place at which a variable is given a value. -/
structure Site where
  target : Variable
  /-- The place stands inside the right operand of a logical operator. -/
  isSkippable : Bool

mutual

/-- The places of an expression, which itself may be inside such an operand. -/
def Expr.sites (isSkippable : Bool) : Expr → List Site
  | .literal _ | .name _ | .error => []
  | .assignment target value => value.sites isSkippable ++ [⟨target, isSkippable⟩]
  | .unary _ operand => operand.sites isSkippable
  | .binary left o right =>
    left.sites isSkippable ++ right.sites (isSkippable || o.decisive?.isSome)
  | .call _ arguments => Expr.sitesAll isSkippable arguments

/-- The places of a row of expressions. -/
def Expr.sitesAll (isSkippable : Bool) : List Expr → List Site
  | [] => []
  | e :: es => e.sites isSkippable ++ Expr.sitesAll isSkippable es

end

mutual

/-- The places of a statement. -/
def Stmt.sites : Stmt → List Site
  | .block statements => Stmt.sitesAll statements
  | .declaration target initializer => initializer.sites false ++ [⟨target, false⟩]
  | .expression inner => inner.sites false
  | .ifThen condition consequence => condition.sites false ++ consequence.sites
  | .ifElse condition consequence alternative =>
    condition.sites false ++ (consequence.sites ++ alternative.sites)
  | .whileLoop condition body => condition.sites false ++ body.sites
  | .forLoop target lower upper body =>
    lower.sites false ++ (upper.sites false ++ (⟨target, false⟩ :: body.sites))
  | .gotoIf _ condition _ => condition.sites false
  | .goto _ | .label _ => []

/-- The places of a row of statements. -/
def Stmt.sitesAll : List Stmt → List Site
  | [] => []
  | s :: ss => s.sites ++ Stmt.sitesAll ss

end

/-- The identities of the variables at some places are below a bound. -/
def SitesBelow (bound : Nat) (sites : List Site) : Prop := ∀ site ∈ sites, site.target.id < bound

/-- The first place of a variable can be passed by. -/
def Skippable (sites : List Site) (v : Variable) : Prop :=
  sites.find? (·.target == v) = some ⟨v, true⟩

variable {sites sites' : List Site} {bound bound' : Nat} {v : Variable}

theorem sitesBelow_nil : SitesBelow bound [] := fun _ h => absurd h List.not_mem_nil

/-- Places are below a bound if both parts are. -/
theorem SitesBelow.append (h : SitesBelow bound sites) (h' : SitesBelow bound sites') :
    SitesBelow bound (sites ++ sites') := by
  intro site hs
  rcases List.mem_append.1 hs with hs | hs
  · exact h site hs
  · exact h' site hs

/-- A place of one variable is below every bound above its identity. -/
theorem sitesBelow_singleton {site : Site} (h : site.target.id < bound) :
    SitesBelow bound [site] := by
  intro other hs
  rw [List.mem_singleton.1 hs]
  exact h

theorem SitesBelow.mono (h : SitesBelow bound sites) (hb : bound ≤ bound') :
    SitesBelow bound' sites := fun site hs => Nat.lt_of_lt_of_le (h site hs) hb

/-- A variable with a new identity has its first place where it is declared. -/
theorem skippable_of_below (h : SitesBelow v.id sites) (sites' : List Site) :
    Skippable (sites ++ ⟨v, true⟩ :: sites') v := by
  have absent : sites.find? (·.target == v) = none := by
    rw [List.find?_eq_none]
    intro site hs htarget
    have hlt := h site hs
    rw [beq_iff_eq] at htarget
    rw [htarget] at hlt
    exact Nat.lt_irrefl _ hlt
  rw [Skippable, List.find?_append, absent, List.find?_cons_of_pos (by simp)]
  rfl

/-- Places behind all others change no first place. -/
theorem Skippable.append (h : Skippable sites v) (sites' : List Site) :
    Skippable (sites ++ sites') v := by
  rw [Skippable, List.find?_append, show sites.find? (·.target == v) = _ from h]
  rfl

end Bound

namespace Rows

/-- The identities of all visible variables are below a bound. -/
def Below (bound : Nat) (rows : Rows) : Prop := ∀ vars ∈ rows, ∀ v ∈ vars, v.id < bound

theorem Below.mono {bound bound' : Nat} {rows : Rows} (h : Below bound rows)
    (hb : bound ≤ bound') : Below bound' rows :=
  fun vars hvars v hv => Nat.lt_of_lt_of_le (h vars hvars v hv) hb

end Rows

namespace Frame

variable {here there : Frame} {outer : Rows}

/-- Identities stay below the next one while a scope grows. -/
theorem Grows.below (h : here.Grows there) (hb : Rows.Below here.nextId (here.rows outer)) :
    Rows.Below there.nextId (there.rows outer) := by
  obtain ⟨new, hvars, hnew⟩ := h.extends_vars
  have hle := h.nextId_le
  intro vars hmem v hv
  rcases List.mem_cons.1 hmem with rfl | hmem
  · rw [hvars, List.mem_append] at hv
    rcases hv with hv | hv
    · have := hb here.vars List.mem_cons_self v hv
      omega
    · exact (hnew v hv).2
  · have := hb vars (List.mem_cons_of_mem _ hmem) v hv
    omega

/-- A scope just opened adds no identities. -/
theorem below_fresh {nextId : Nat} (hb : Rows.Below nextId outer) :
    Rows.Below (Frame.fresh nextId).nextId ((Frame.fresh nextId).rows outer) := by
  intro vars hmem v hv
  rcases List.mem_cons.1 hmem with rfl | hmem
  · cases hv
  · exact hb vars hmem v hv

end Frame

namespace Syntax

open Scriptlet.Bound Scriptlet.Frame

mutual

/-- The variables to which an expression gives values are below the next
identity behind it. -/
theorem Expr.Elaborates.sitesBelow {outer : Rows} {here there : Frame} {e : Expr}
    {bound : Bound.Expr} (h : e.Elaborates outer here bound there)
    (hb : Rows.Below here.nextId (here.rows outer)) (isSkippable : Bool) :
    SitesBelow there.nextId (bound.sites isSkippable) := by
  cases h with
  | literal | name => exact sitesBelow_nil
  | assignKnown part _ visible _ _ =>
    obtain ⟨⟨vars, hvars, hv⟩, -⟩ := Rows.mem_of_lookup? visible
    have known := part.grows.below hb vars hvars _ hv
    exact (part.sitesBelow hb isSkippable).append (sitesBelow_singleton known)
  | assignNew part _ _ =>
    have inside := (part.sitesBelow hb isSkippable).mono (Nat.le_succ _)
    exact inside.append (sitesBelow_singleton (Nat.lt_succ_self _))
  | unary part _ => exact part.sitesBelow hb isSkippable
  | binary part part' _ =>
    have first := (part.sitesBelow hb isSkippable).mono part'.grows.nextId_le
    exact first.append (part'.sitesBelow (part.grows.below hb) _)
  | grouped part _ => exact part.sitesBelow hb isSkippable
  | call parts _ _ => exact parts.sitesBelow hb isSkippable

/-- The variables to which a row of expressions gives values are below the next
identity behind it. -/
theorem Expr.ElaborateAll.sitesBelow {outer : Rows} {here there : Frame} {es : List Expr}
    {bounds : List Bound.Expr} (h : Expr.ElaborateAll outer here es bounds there)
    (hb : Rows.Below here.nextId (here.rows outer)) (isSkippable : Bool) :
    SitesBelow there.nextId (Bound.Expr.sitesAll isSkippable bounds) := by
  cases h with
  | nil => exact sitesBelow_nil
  | cons part _ parts =>
    have first := (part.sitesBelow hb isSkippable).mono parts.grows.nextId_le
    exact first.append (parts.sitesBelow (part.grows.below hb) isSkippable)

end

mutual

/-- The variables to which a statement gives values are below the next identity
behind it. -/
theorem Stmt.Elaborates.sitesBelow {outer : Rows} {here there : Frame} {s : Stmt}
    {bound : Bound.Stmt} (h : s.Elaborates outer here bound there)
    (hb : Rows.Below here.nextId (here.rows outer)) : SitesBelow there.nextId bound.sites := by
  cases h with
  | block parts => exact parts.sitesBelow (below_fresh hb)
  | declaration part _ _ _ =>
    have inside := (part.sitesBelow hb false).mono (Nat.le_succ _)
    exact inside.append (sitesBelow_singleton (Nat.lt_succ_self _))
  | ifThen test _ part | whileLoop test _ part =>
    have first := (test.sitesBelow hb false).mono part.grows.nextId_le
    exact first.append (part.sitesBelow (below_fresh (test.grows.below hb)))
  | ifElse test _ part part' =>
    have below := test.grows.below hb
    have first := (test.sitesBelow hb false).mono
      (Nat.le_trans part.grows.nextId_le part'.grows.nextId_le)
    have second := (part.sitesBelow (below_fresh below)).mono part'.grows.nextId_le
    have below' := below.mono part.grows.nextId_le
    exact first.append (second.append (part'.sitesBelow (below_fresh below')))
  | @forLoop _ _ _ between' _ _ identifier _ _ _ _ _ _ _ _ first _ last _ _ part =>
    have below := first.grows.below hb
    have below' := last.grows.below below
    have entered : (Frame.fresh between'.nextId).Grows
        ((Frame.fresh between'.nextId).declare identifier.text .int true) := grows_declare rfl
    have counted : between'.nextId < _ := part.grows.nextId_le
    have lower := (first.sitesBelow hb false).mono
      (Nat.le_trans last.grows.nextId_le (Nat.le_of_lt counted))
    have upper := (last.sitesBelow below false).mono (Nat.le_of_lt counted)
    have body := part.sitesBelow (entered.below (below_fresh below'))
    exact lower.append (upper.append ((sitesBelow_singleton counted).append body))
  | expression part => exact part.sitesBelow hb false

/-- The variables to which a row of statements gives values are below the next
identity behind it. -/
theorem Stmt.ElaborateAll.sitesBelow {outer : Rows} {here there : Frame} {ss : List Stmt}
    {bounds : List Bound.Stmt} (h : Stmt.ElaborateAll outer here ss bounds there)
    (hb : Rows.Below here.nextId (here.rows outer)) :
    SitesBelow there.nextId (Bound.Stmt.sitesAll bounds) := by
  cases h with
  | nil => exact sitesBelow_nil
  | cons part parts =>
    have first := (part.sitesBelow hb).mono parts.grows.nextId_le
    exact first.append (parts.sitesBelow (part.grows.below hb))

end

end Syntax

end Scriptlet
