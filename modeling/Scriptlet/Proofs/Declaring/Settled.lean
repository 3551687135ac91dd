import Scriptlet.Proofs.Declaring.Sites
import Scriptlet.Proofs.Evaluation.Entries

/-!
# Visible variables have values

Names are declared in the order in which a tree is read, variables get values in
the order in which it is run. The two orders agree except inside the right
operands of logical operators, which a run may pass by. So wherever a run comes,
every visible variable has a value, unless its first place is one that can be
passed by.
-/

namespace Scriptlet

/-- What an operator computes does not fail for want of a variable. -/
def Present {α : Type} (result : Except Fault α) : Prop :=
  ∀ name, result ≠ .error (.missingVariable name)

section Operators

variable {α β : Type}

theorem present_ok (a : α) : Present (.ok a : Except Fault α) := fun _ h => by cases h

/-- A sequence fails for want of a variable only if one of its parts does. -/
theorem Present.bind {result : Except Fault α} {f : α → Except Fault β} (h : Present result)
    (h' : ∀ a, Present (f a)) : Present (result >>= f) := by
  cases result with
  | ok a => exact h' a
  | error fault =>
    intro name hf
    cases hf
    exact h name rfl

theorem present_expectBool (operator : String) (value : Value) :
    Present (value.expectBool operator) := by
  intro name h
  cases value <;> cases h

theorem present_expectInt (operator : String) (value : Value) :
    Present (value.expectInt operator) := by
  intro name h
  cases value <;> cases h

/-- No variable is missing for an operator in front of an operand. -/
theorem UnaryOperator.present_apply (o : UnaryOperator) (operand : Value) :
    Present (o.apply operand) := by
  intro name
  unfold apply
  split <;> simp

namespace BinaryOperator

variable (o : BinaryOperator) (left right : Value)

theorem present_onInts (f : Int32 → Int32 → Value) : Present (o.onInts f left right) :=
  (present_expectInt _ left).bind fun _ => (present_expectInt _ right).bind fun _ => present_ok _

theorem present_onBools (f : Bool → Bool → Bool) : Present (o.onBools f left right) :=
  (present_expectBool _ left).bind fun _ => (present_expectBool _ right).bind fun _ => present_ok _

/-- No variable is missing for a division. -/
theorem present_divide : Present (o.divide left right) := by
  refine (present_expectInt _ left).bind fun a => (present_expectInt _ right).bind fun b => ?_
  intro name
  split
  · exact fun h => by cases h
  · split <;> exact fun h => by cases h

/-- No variable is missing for an operator between two operands. -/
theorem present_apply : Present (o.apply left right) := by
  have ints := o.present_onInts left right
  have bools := o.present_onBools left right
  have division := o.present_divide left right
  unfold apply
  cases o.operation with
  | equals | notEquals => exact present_ok _
  | logicalAnd | logicalOr => exact bools _
  | bitwiseAnd | bitwiseOr | bitwiseXor =>
    by_cases htype : o.result = .bool
    · simpa only [htype, if_true] using bools _
    · simpa only [htype, if_false] using ints _
  | division => exact division
  | addition | subtraction | multiplication | less | lessOrEqual | greater | greaterOrEqual =>
    exact ints _

end BinaryOperator

end Operators

namespace Bound

open Evaluating Meaning Syntax

/-- Every variable of the rows has a value, unless its first place among some
places can be passed by. -/
def Settled (sites : List Site) (rows : Rows) (memory : Memory) : Prop :=
  ∀ vars ∈ rows, ∀ v ∈ vars, Skippable sites v ∨ HasEntry v memory

/-- If a variable is missing, there is one of its name that has no value and
whose first place among some places can be passed by. -/
def MissesSkippable (sites : List Site) (fault : Fault) (memory : Memory) : Prop :=
  ∀ name, fault = .missingVariable name →
    ∃ v, v.name = name ∧ memory.store.get? v = none ∧ Skippable sites v

variable {sites : List Site} {rows outer : Rows} {here there : Frame} {memory : Memory}
  {v : Variable} {value : Value}

/-- Giving a variable a value unsettles nothing. -/
theorem Settled.write (h : Settled sites rows memory) (w : Variable) (value : Value) :
    Settled sites rows { memory with store := memory.store.insert w value } := by
  intro vars hvars v hv
  rcases h vars hvars v hv with hskip | hentry
  · exact .inl hskip
  · exact .inr hentry.insert

/-- What is settled depends on the store alone. -/
theorem Settled.of_store {memory' : Memory} (h : Settled sites rows memory)
    (same : memory'.store = memory.store) : Settled sites rows memory' := by
  intro vars hvars v hv
  rw [HasEntry, same]
  exact h vars hvars v hv

/-- A new variable is settled if it is itself. -/
theorem Settled.declare (h : Settled sites (here.rows outer) memory) {name : String} {type : Ty}
    {isReadOnly : Bool} (hv : Skippable sites (here.next name type isReadOnly) ∨
      HasEntry (here.next name type isReadOnly) memory) :
    Settled sites ((here.declare name type isReadOnly).rows outer) memory := by
  intro vars hvars v hmem
  rcases List.mem_cons.1 hvars with rfl | hvars
  · rcases List.mem_append.1 hmem with hmem | hmem
    · exact h here.vars List.mem_cons_self v hmem
    · rw [List.mem_singleton.1 hmem]
      exact hv
  · exact h vars (List.mem_cons_of_mem _ hvars) v hmem

/-- A scope just opened leaves nothing to settle. -/
theorem Settled.fresh (h : Settled sites rows memory) (nextId : Nat) :
    Settled sites ((Frame.fresh nextId).rows rows) memory := by
  intro vars hvars v hv
  rcases List.mem_cons.1 hvars with rfl | hvars
  · cases hv
  · exact h vars hvars v hv

/-- What is settled inside a scope is settled around it. -/
theorem Settled.outside (h : Settled sites (here.rows rows) memory) : Settled sites rows memory :=
  fun vars hvars v hv => h vars (List.mem_cons_of_mem _ hvars) v hv

/-- What is settled behind a tree was settled in front of it, as far as it was
declared there. -/
theorem Settled.shrink (h : Settled sites (there.rows outer) memory) (grows : here.Grows there) :
    Settled sites (here.rows outer) memory := by
  obtain ⟨new, hvars, -⟩ := grows.extends_vars
  intro vars hmem v hv
  rcases List.mem_cons.1 hmem with rfl | hmem
  · exact h there.vars List.mem_cons_self v (hvars ▸ List.mem_append_left _ hv)
  · exact h vars (List.mem_cons_of_mem _ hmem) v hv

/-- What is settled in front of a tree is settled behind it if all that it
declares can be passed by. -/
theorem Settled.pass (h : Settled sites (here.rows outer) memory)
    (passed : ∀ v ∈ there.vars, v ∈ here.vars ∨ Skippable sites v) :
    Settled sites (there.rows outer) memory := by
  intro vars hvars v hv
  rcases List.mem_cons.1 hvars with rfl | hvars
  · rcases passed v hv with hv | hskip
    · exact h here.vars List.mem_cons_self v hv
    · exact .inl hskip
  · exact h vars (List.mem_cons_of_mem _ hvars) v hv

/-- A result that does not want a variable leaves everything as it is. -/
theorem settles_lift {α : Type} {result : Except Fault α} (h : Present result)
    {before : Memory → Prop} :
    (lift result).Ensures before (fun _ => before) (MissesSkippable sites) := by
  refine ensures_lift fun memory hm => ?_
  cases result with
  | ok a => exact hm
  | error fault =>
    intro name hfault
    exact absurd (congrArg Except.error hfault) (h name)

/-- A variable with a value can be read. -/
theorem settles_read_entry {before : Memory → Prop} :
    (read v).Ensures (fun memory => HasEntry v memory ∧ before memory)
      (fun _ memory => HasEntry v memory ∧ before memory) (MissesSkippable sites) := by
  refine ensures_read (fun memory value hm _ => hm) ?_
  intro memory ⟨⟨value, hvalue⟩, _⟩ habsent
  rw [habsent] at hvalue
  cases hvalue

/-- A visible variable can be read if everything is settled. -/
theorem settles_read (visible : ∃ vars ∈ rows, v ∈ vars) :
    (read v).Ensures (Settled sites rows) (fun _ => Settled sites rows)
      (MissesSkippable sites) := by
  obtain ⟨vars, hvars, hv⟩ := visible
  refine ensures_read (fun memory value hm _ => hm) ?_
  intro memory hm habsent name hname
  rcases hm vars hvars v hv with hskip | ⟨value, hvalue⟩
  · exact ⟨v, by simpa using hname, habsent, hskip⟩
  · rw [habsent] at hvalue
    cases hvalue

/-- A call leaves everything settled. -/
theorem settles_call (f : Function) (arguments : List Value) :
    (Evaluating.call f arguments).Ensures (Settled sites rows) (fun _ => Settled sites rows)
      (MissesSkippable sites) := by
  intro memory hm
  have calls := ensures_call f arguments memory.store
  rcases hc : (Evaluating.call f arguments).on memory with ⟨fault | value, behind⟩
  · intro name hfault
    exact absurd hfault ((calls.of_error rfl hc).2 name)
  · exact hm.of_store (calls.of_ok rfl hc)

/-- An evaluation leads from one settled scope to another. Where all its places
can be passed by, so can the variables that it declares. -/
structure Settles {α : Type} (sites : List Site) (outer : Rows) (here there : Frame)
    (isSkippable : Bool) (m : Evaluating α) : Prop where
  ensures : m.Ensures (Settled sites (here.rows outer)) (fun _ => Settled sites (there.rows outer))
    (MissesSkippable sites)
  passed : isSkippable = true → ∀ v ∈ there.vars, v ∈ here.vars ∨ Skippable sites v

/-- What can be passed by in two parts can be passed by as a whole. -/
theorem passed_trans {between : Frame}
    (h : ∀ v ∈ between.vars, v ∈ here.vars ∨ Skippable sites v)
    (h' : ∀ v ∈ there.vars, v ∈ between.vars ∨ Skippable sites v) :
    ∀ v ∈ there.vars, v ∈ here.vars ∨ Skippable sites v := by
  intro v hv
  rcases h' v hv with hv | hskip
  · exact h v hv
  · exact .inr hskip

/-- A test settles what its condition settles. -/
theorem Settles.holds {condition : Expr} {isSkippable : Bool}
    (h : Settles sites outer here there isSkippable condition.evaluate) :
    condition.holds.Ensures (Settled sites (here.rows outer))
      (fun _ => Settled sites (there.rows outer)) (MissesSkippable sites) :=
  h.ensures.bind fun value => settles_lift (present_expectBool _ value)

/-- What is done in a scope of its own leaves the scopes around it settled. -/
theorem settles_scope {m : Meaning} {inner : Frame} {nextId : Nat}
    (h : m.Ensures (Settled sites ((Frame.fresh nextId).rows rows))
      (Settled sites (inner.rows rows)) (MissesSkippable sites)) :
    m.Ensures (Settled sites rows) (Settled sites rows) (MissesSkippable sites) :=
  h.weaken (fun _ hm => hm.fresh nextId) (fun _ hm => hm.outside) (fun _ _ hm => hm)

end Bound

namespace Syntax

open Scriptlet.Bound Evaluating Scriptlet.Frame

mutual

/-- Evaluating what an expression means settles what it declares. The places of
the expression stand among all places behind places of older variables. -/
theorem Expr.Elaborates.settles {sites front rest : List Site} {outer : Rows}
    {here there : Frame} {e : Expr} {bound : Bound.Expr} {isSkippable : Bool}
    (h : e.Elaborates outer here bound there)
    (whole : sites = front ++ (bound.sites isSkippable ++ rest))
    (older : SitesBelow here.nextId front) (below : Rows.Below here.nextId (here.rows outer)) :
    Settles sites outer here there isSkippable bound.evaluate := by
  cases h with
  | literal token => exact ⟨ensures_pure fun _ hm => hm, fun _ v hv => .inl hv⟩
  | name _ visible =>
    exact ⟨settles_read (Rows.mem_of_lookup? visible).1, fun _ v hv => .inl hv⟩
  | assignKnown part _ _ _ _ =>
    rw [Bound.Expr.sites, List.append_assoc] at whole
    have value := part.settles whole older below
    refine ⟨value.ensures.bind fun result => ?_, value.passed⟩
    exact (ensures_write fun memory hm => hm.write _ result).bind fun _ =>
      ensures_pure fun _ hm => hm
  | @assignNew _ there identifier _ _ bound part _ _ =>
    rw [Bound.Expr.sites, List.append_assoc] at whole
    have value := part.settles whole older below
    have front := (older.mono part.grows.nextId_le).append (part.sitesBelow below isSkippable)
    have first : isSkippable = true →
        Skippable sites (there.next identifier.text bound.type false) := by
      rintro rfl
      rw [whole, ← List.append_assoc]
      exact skippable_of_below (v := there.next identifier.text bound.type false) front rest
    constructor
    · refine value.ensures.bind fun result => ?_
      refine (ensures_write fun memory hm => ?_).bind fun _ => ensures_pure fun _ hm => hm
      exact (hm.write _ result).declare (.inr Store.has_insert_self)
    · intro hskip v hv
      rcases List.mem_append.1 hv with hv | hv
      · exact value.passed hskip v hv
      · rw [List.mem_singleton.1 hv]
        exact .inr (first hskip)
  | unary part _ =>
    have operand := part.settles whole older below
    refine ⟨operand.ensures.bind fun value => ?_, operand.passed⟩
    exact settles_lift (UnaryOperator.present_apply _ value)
  | @binary _ between _ _ _ _ boundLeft boundRight o part part' _ =>
    rw [Bound.Expr.sites, List.append_assoc] at whole
    have left := part.settles whole older below
    rw [← List.append_assoc] at whole
    have front := (older.mono part.grows.nextId_le).append (part.sitesBelow below isSkippable)
    have right := part'.settles whole front (part.grows.below below)
    constructor
    · rw [Bound.Expr.evaluate]
      refine left.ensures.bind fun leftValue => ?_
      cases hd : o.decisive? with
      | none =>
        exact right.ensures.bind fun rightValue =>
          settles_lift (o.present_apply leftValue rightValue)
      | some decisive =>
        refine (settles_lift (present_expectBool _ leftValue)).bind fun truth => ?_
        split
        · exact ensures_pure fun memory hm => hm.pass (right.passed (by simp [hd]))
        · refine right.ensures.bind fun rightValue => ?_
          exact (settles_lift (present_expectBool _ rightValue)).bind fun _ =>
            ensures_pure fun _ hm => hm
    · intro hskip
      exact passed_trans (left.passed hskip) (right.passed (by simp [hskip]))
  | grouped part _ => exact part.settles whole older below
  | call parts _ _ =>
    have arguments := parts.settles whole older below
    exact ⟨arguments.ensures.bind fun values => settles_call _ values, arguments.passed⟩

/-- Evaluating what a row of expressions means settles what it declares. -/
theorem Expr.ElaborateAll.settles {sites front rest : List Site} {outer : Rows}
    {here there : Frame} {es : List Expr} {bounds : List Bound.Expr} {isSkippable : Bool}
    (h : Expr.ElaborateAll outer here es bounds there)
    (whole : sites = front ++ (Bound.Expr.sitesAll isSkippable bounds ++ rest))
    (older : SitesBelow here.nextId front) (below : Rows.Below here.nextId (here.rows outer)) :
    Settles sites outer here there isSkippable (Bound.Expr.evaluateAll bounds) := by
  cases h with
  | nil => exact ⟨ensures_pure fun _ hm => hm, fun _ v hv => .inl hv⟩
  | cons part _ parts =>
    rw [Bound.Expr.sitesAll, List.append_assoc] at whole
    have first := part.settles whole older below
    rw [← List.append_assoc] at whole
    have front := (older.mono part.grows.nextId_le).append (part.sitesBelow below isSkippable)
    have others := parts.settles whole front (part.grows.below below)
    constructor
    · exact first.ensures.bind fun value => others.ensures.bind fun values =>
        ensures_pure fun _ hm => hm
    · intro hskip
      exact passed_trans (first.passed hskip) (others.passed hskip)

end

/-- A counting loop settles what its bounds declare. Its variable has a value as
long as the loop goes round. -/
theorem settles_forLoop {sites : List Site} {outer : Rows} {here between between' inner : Frame}
    {v : Variable} {lower upper : Bound.Expr} {body : Bound.Stmt} {nextId rounds : Nat}
    (first : Settles sites outer here between false lower.evaluate)
    (last : Settles sites outer between between' false upper.evaluate)
    (grows : between.Grows between')
    (inside : (body.interpret rounds).Ensures
      (Settled sites (Frame.rows ⟨[v], nextId⟩ (between'.rows outer)))
      (Settled sites (inner.rows (between'.rows outer))) (MissesSkippable sites)) :
    ((Bound.Stmt.forLoop v lower upper body).interpret rounds).Ensures
      (Settled sites (here.rows outer)) (Settled sites (between'.rows outer))
      (MissesSkippable sites) := by
  have declares : (Bound.Stmt.declare v lower).Ensures (Settled sites (here.rows outer))
      (fun _ memory => HasEntry v memory ∧ Settled sites (between.rows outer) memory)
      (MissesSkippable sites) := by
    refine first.ensures.bind fun result => ?_
    refine (ensures_write fun memory hm => ?_).bind fun _ => ensures_pure fun _ hm => hm
    exact ⟨Store.has_insert_self, hm.write v result⟩
  have counts : (Bound.Stmt.counts v upper).Ensures
      (fun memory => HasEntry v memory ∧ Settled sites (between.rows outer) memory)
      (fun _ memory => HasEntry v memory ∧ Settled sites (between'.rows outer) memory)
      (MissesSkippable sites) := by
    refine settles_read_entry.bind fun current => ?_
    have bound := ((upper.keeps (outlasts_has v (upper.sites false))).and last.ensures).weaken
      (fun _ hm => hm) (fun _ _ hm => hm) (fun _ _ hm => hm.2)
    refine bound.bind fun limit => ?_
    refine (settles_lift (present_expectInt _ current)).bind fun _ => ?_
    exact (settles_lift (present_expectInt _ limit)).bind fun _ => ensures_pure fun _ hm => hm
  have steps : (Bound.Stmt.increment v).Ensures
      (fun memory => HasEntry v memory ∧ Settled sites (between'.rows outer) memory)
      (fun _ memory => HasEntry v memory ∧ Settled sites (between'.rows outer) memory)
      (MissesSkippable sites) := by
    refine settles_read_entry.bind fun current => ?_
    refine (settles_lift (present_expectInt _ current)).bind fun reached => ?_
    refine (ensures_write fun memory hm => ?_).bind fun _ => ensures_pure fun _ hm => hm
    exact ⟨Store.has_insert_self, hm.2.write v _⟩
  have body : (body.interpret rounds).Ensures
      (fun memory => HasEntry v memory ∧ Settled sites (between'.rows outer) memory)
      (fun memory => HasEntry v memory ∧ Settled sites (between'.rows outer) memory)
      (MissesSkippable sites) := by
    have kept := body.keeps rounds (outlasts_has v body.sites)
    refine (kept.and inside).weaken (fun memory hm => ⟨hm.1, ?_⟩)
      (fun _ hm => ⟨hm.1, hm.2.outside⟩) (fun _ _ hm => hm.2)
    intro vars hvars w hw
    rcases List.mem_cons.1 hvars with rfl | hvars
    · rw [List.mem_singleton.1 hw]
      exact .inr hm.1
    · exact hm.2 vars hvars w hw
  have round := body.andThen (Meaning.ensures_ofEvaluating steps)
  have loops := Meaning.ensures_loop counts
    (round.weaken (fun _ hm => hm) (fun _ hm => ⟨hm.1, hm.2.shrink grows⟩) (fun _ _ hm => hm))
    rounds
  exact (Meaning.ensures_ofEvaluating declares).andThen
    (loops.weaken (fun _ hm => hm) (fun _ hm => hm.2) (fun _ _ hm => hm))

mutual

/-- Running what a statement means settles what it declares. The places of the
statement stand among all places behind places of older variables. -/
theorem Stmt.Elaborates.settles {sites front rest : List Site} {outer : Rows}
    {here there : Frame} {s : Stmt} {bound : Bound.Stmt}
    (h : s.Elaborates outer here bound there) (whole : sites = front ++ (bound.sites ++ rest))
    (older : SitesBelow here.nextId front) (below : Rows.Below here.nextId (here.rows outer))
    (rounds : Nat) :
    (bound.interpret rounds).Ensures (Settled sites (here.rows outer))
      (Settled sites (there.rows outer)) (MissesSkippable sites) := by
  cases h with
  | block parts => exact settles_scope (parts.settles whole older (below_fresh below) rounds)
  | declaration part _ _ _ =>
    rw [Bound.Stmt.sites, List.append_assoc] at whole
    have value := part.settles whole older below
    refine Meaning.ensures_ofEvaluating (value.ensures.bind fun result => ?_)
    refine (ensures_write fun memory hm => ?_).bind fun _ => ensures_pure fun _ hm => hm
    exact (hm.write _ result).declare (.inr Store.has_insert_self)
  | ifThen test _ part =>
    rw [Bound.Stmt.sites, List.append_assoc] at whole
    have condition := test.settles whole older below
    rw [← List.append_assoc] at whole
    have front := (older.mono test.grows.nextId_le).append (test.sitesBelow below false)
    have inside := part.settles whole front (below_fresh (test.grows.below below)) rounds
    exact Meaning.ensures_branch condition.holds (settles_scope inside)
      (Meaning.ensures_skip fun _ hm => hm)
  | ifElse test _ part part' =>
    rw [Bound.Stmt.sites, List.append_assoc, List.append_assoc] at whole
    have condition := test.settles whole older below
    rw [← List.append_assoc] at whole
    have between := test.grows.below below
    have front := (older.mono test.grows.nextId_le).append (test.sitesBelow below false)
    have yes := part.settles whole front (below_fresh between) rounds
    rw [← List.append_assoc] at whole
    have front' := (front.mono part.grows.nextId_le).append (part.sitesBelow (below_fresh between))
    have between' := between.mono part.grows.nextId_le
    have no := part'.settles whole front' (below_fresh between') rounds
    exact Meaning.ensures_branch condition.holds (settles_scope yes) (settles_scope no)
  | whileLoop test _ part =>
    rw [Bound.Stmt.sites, List.append_assoc] at whole
    have condition := test.settles whole older below
    rw [← List.append_assoc] at whole
    have front := (older.mono test.grows.nextId_le).append (test.sitesBelow below false)
    have inside := part.settles whole front (below_fresh (test.grows.below below)) rounds
    refine Meaning.ensures_loop condition.holds ?_ rounds
    exact (settles_scope inside).weaken (fun _ hm => hm) (fun _ hm => hm.shrink test.grows)
      (fun _ _ hm => hm)
  | @forLoop _ _ _ between' _ _ identifier _ _ _ _ _ _ _ _ first _ last _ _ part =>
    rw [Bound.Stmt.sites, List.append_assoc, List.append_assoc] at whole
    have lower := first.settles whole older below
    rw [← List.append_assoc] at whole
    have between := first.grows.below below
    have front := (older.mono first.grows.nextId_le).append (first.sitesBelow below false)
    have upper := last.settles whole front between
    rw [← List.append_assoc, List.cons_append, List.append_cons] at whole
    have front' := (front.mono last.grows.nextId_le).append (last.sitesBelow between false)
    have entered : (Frame.fresh between'.nextId).Grows
        ((Frame.fresh between'.nextId).declare identifier.text .int true) := grows_declare rfl
    have counted : SitesBelow (between'.nextId + 1)
        [⟨between'.next identifier.text .int true, false⟩] :=
      sitesBelow_singleton (Nat.lt_succ_self _)
    have inside := part.settles whole ((front'.mono (Nat.le_succ _)).append counted)
      (entered.below (below_fresh (last.grows.below between))) rounds
    have loops := settles_forLoop lower upper last.grows inside
    exact loops
  | expression part =>
    rw [Bound.Stmt.sites] at whole
    exact Meaning.ensures_ofEvaluating (part.settles whole older below).ensures

/-- Running what a row of statements means settles what it declares. -/
theorem Stmt.ElaborateAll.settles {sites front rest : List Site} {outer : Rows}
    {here there : Frame} {ss : List Stmt} {bounds : List Bound.Stmt}
    (h : Stmt.ElaborateAll outer here ss bounds there)
    (whole : sites = front ++ (Bound.Stmt.sitesAll bounds ++ rest))
    (older : SitesBelow here.nextId front) (below : Rows.Below here.nextId (here.rows outer))
    (rounds : Nat) :
    (Bound.Stmt.interpretAll rounds bounds).Ensures (Settled sites (here.rows outer))
      (Settled sites (there.rows outer)) (MissesSkippable sites) := by
  cases h with
  | nil => exact Meaning.ensures_skip fun _ hm => hm
  | cons part parts =>
    rw [Bound.Stmt.sitesAll, List.append_assoc] at whole
    have first := part.settles whole older below rounds
    rw [← List.append_assoc] at whole
    have front := (older.mono part.grows.nextId_le).append (part.sitesBelow below)
    exact first.andThen (parts.settles whole front (part.grows.below below) rounds)

end

end Syntax

end Scriptlet
