import Scriptlet.Proofs.Scoping.Arena

/-!
# Scopes are nested tables

Variables and functions are declared and looked up in the same way, and the ones do not
get in the way of the others. A declaration is seen from a scope exactly if the way
outwards from there leads to it past scopes that do not hold its name. It changes no other
look-up, and a scope that is closed again leaves no trace, whatever was declared in it.
-/

namespace Scriptlet.ScopeTree

/-! ### Two kinds of tables -/

/-- What scopes hold under names: their variables or their functions. -/
structure Table (α : Type) where
  /-- The name under which something is declared. -/
  name : α → String
  /-- What a scope itself holds under a name. -/
  held? : Scope → String → Option α
  /-- A scope with one more declaration. -/
  extend : Scope → α → Scope
  declare : ScopeTree → Nat → α → ScopeTree × Bool
  lookup? : ScopeTree → Nat → String → Option α
  parent_extend : ∀ s a, (extend s a).parent? = s.parent?
  /-- What is declared under a free name is held under that name. -/
  held?_extend : ∀ s a sought, held? s (name a) = none →
    held? (extend s a) sought = if name a = sought then some a else held? s sought
  declare_eq : ∀ t scope a s, t.get? scope = some s → declare t scope a =
    if (held? s (name a)).isSome then (t, false)
    else (⟨t.scopes.modify scope (extend · a)⟩, true)
  lookup?_eq : ∀ t scope sought,
    lookup? t scope sought = (t.enclosing scope).findSome? (held? · sought)

/-- What stands last under a free name is what is found under it. -/
theorem find?_concat {α : Type} {name : α → String} {as : List α} {a : α} (sought : String)
    (free : as.find? (name · == name a) = none) :
    (as ++ [a]).find? (name · == sought) =
      if name a = sought then some a else as.find? (name · == sought) := by
  rw [List.find?_append]
  by_cases same : name a = sought
  · subst same
    rw [free, if_pos rfl, Option.none_or, List.find?_cons_of_pos (by simp)]
  · rw [if_neg same, List.find?_cons_of_neg (by simpa using same), List.find?_nil, Option.or_none]

/-- The variables of scopes. -/
def Table.vars : Table Variable where
  name := Variable.name
  held? := Scope.variableNamed?
  extend s v := { s with vars := s.vars ++ [v] }
  declare := declareVariable
  lookup? := lookupVariable?
  parent_extend _ _ := rfl
  held?_extend _ _ sought free := find?_concat sought free
  declare_eq t scope v s found := by rw [declareVariable, found]
  lookup?_eq _ _ _ := rfl

/-- The functions of scopes. -/
def Table.funs : Table Function where
  name := Function.name
  held? := Scope.functionNamed?
  extend s f := { s with funs := s.funs ++ [f] }
  declare := declareFunction
  lookup? := lookupFunction?
  parent_extend _ _ := rfl
  held?_extend _ _ sought free := find?_concat sought free
  declare_eq t scope f s found := by rw [declareFunction, found]
  lookup?_eq _ _ _ := rfl

variable {α β : Type} {t t' t'' : ScopeTree} {scope inner : Nat} {s : Scope} {own : Table α}
  {a : α} {sought : String}

/-! ### Rows that differ in one scope -/

/-- Two rows are the same outside of one scope, and that has the same parent in both. -/
structure SameBut (t : ScopeTree) (scope : Nat) (t' : ScopeTree) : Prop where
  size : t'.size = t.size
  others : ∀ i, i ≠ scope → t'.get? i = t.get? i
  parent : (t'.get? scope).map Scope.parent? = (t.get? scope).map Scope.parent?

theorem SameBut.refl (t : ScopeTree) (scope : Nat) : t.SameBut scope t :=
  ⟨rfl, fun _ _ => rfl, rfl⟩

/-- A scope may be changed twice. -/
theorem SameBut.trans (h : t.SameBut scope t') (h' : t'.SameBut scope t'') :
    t.SameBut scope t'' where
  size := h'.size.trans h.size
  others i other := (h'.others i other).trans (h.others i other)
  parent := h'.parent.trans h.parent

/-- No link is new. -/
theorem SameBut.parents (h : t.SameBut scope t') (i : Nat) :
    (t'.get? i).map Scope.parent? = (t.get? i).map Scope.parent? := by
  by_cases other : i = scope
  · subst other
    exact h.parent
  · rw [h.others i other]

/-- A row stays ordered if one scope changes. -/
theorem SameBut.ordered (h : t.SameBut scope t') (ordered : t.Ordered) : t'.Ordered := by
  refine ordered.of_links fun i s found => ?_
  have links := h.parents i
  rw [found, Option.map_some] at links
  obtain ⟨before, here, same⟩ := Option.map_eq_some_iff.1 links.symm
  exact ⟨before, here, same.symm⟩

/-- A scope just opened is closed again without a trace, whatever it holds by then. -/
theorem SameBut.pop_eq {parent : Nat} (h : (t.push parent).1.SameBut t.size t')
    (nonempty : 0 < t.size) : t'.pop = (t, some parent) := by
  have size : t'.scopes.size = t.scopes.size + 1 := h.size.trans (Array.size_push _)
  have many : ¬ t'.scopes.size ≤ 1 := by
    have nonempty : 0 < t.scopes.size := nonempty
    omega
  have last : t'.scopes.back?.bind Scope.parent? = some parent := by
    have links := h.parent
    rw [get?_push, if_pos rfl, Option.map_some] at links
    obtain ⟨s, found, same⟩ := Option.map_eq_some_iff.1 links
    have back : t'.scopes.back? = t'.get? t.size := by
      rw [Array.back?, get?, size]
      rfl
    rw [back, found, Option.bind_some, same]
    rfl
  have rest : t'.scopes.pop = t.scopes := by
    apply Array.ext_getElem?
    intro i
    rw [Array.getElem?_pop]
    by_cases inside : i < t.scopes.size
    · have other : i ≠ t.size := Nat.ne_of_lt inside
      have same := h.others i other
      rw [get?_push, if_neg other] at same
      rw [if_pos (by omega)]
      exact same
    · rw [if_neg (by omega), Array.getElem?_eq_none (by omega)]
  rw [pop, if_neg many, last, rest]

/-! ### What a declaration does to the row -/

/-- A change of one scope is found there, and nothing else changes. -/
theorem get?_modify (t : ScopeTree) (scope : Nat) (f : Scope → Scope) (i : Nat) :
    get? ⟨t.scopes.modify scope f⟩ i = if scope = i then (t.get? i).map f else t.get? i :=
  Array.getElem?_modify

/-- A name that a scope holds is not declared there again. -/
theorem Table.declare_of_taken (own : Table α) {b : α} (found : t.get? scope = some s)
    (taken : own.held? s (own.name a) = some b) : own.declare t scope a = (t, false) := by
  rw [own.declare_eq t scope a s found, taken]
  rfl

/-- A name that a scope does not hold is declared there. -/
theorem Table.declare_of_free (own : Table α) (found : t.get? scope = some s)
    (free : own.held? s (own.name a) = none) :
    own.declare t scope a = (⟨t.scopes.modify scope (own.extend · a)⟩, true) := by
  rw [own.declare_eq t scope a s found, free]
  rfl

/-- A declaration changes one scope alone. -/
theorem Table.sameBut_declare (own : Table α) (found : t.get? scope = some s) (a : α) :
    t.SameBut scope (own.declare t scope a).1 := by
  cases held : own.held? s (own.name a) with
  | some b =>
    rw [own.declare_of_taken found held]
    exact .refl t scope
  | none =>
    rw [own.declare_of_free found held]
    refine ⟨Array.size_modify, fun i other => ?_, ?_⟩
    · rw [get?_modify, if_neg (Ne.symm other)]
    · rw [get?_modify, if_pos rfl, found]
      exact congrArg some (own.parent_extend s a)

/-- Behind a declaration under a free name, the scope holds it as well. -/
theorem Table.get?_declare (own : Table α) (found : t.get? scope = some s)
    (free : own.held? s (own.name a) = none) :
    (own.declare t scope a).1.get? scope = some (own.extend s a) := by
  rw [own.declare_of_free found free, get?_modify, if_pos rfl, found]
  rfl

/-- The operation declares something in a scope. -/
def Operation.DeclaresIn (scope : Nat) : Operation → Prop
  | .declareVariable i _ | .declareFunction i _ => i = scope
  | .push _ | .pop => False

/-- Declarations in one scope change that scope alone. -/
theorem sameBut_declarations {declarations : List Operation} (found : t.get? scope = some s)
    (inside : ∀ operation ∈ declarations, operation.DeclaresIn scope) :
    t.SameBut scope (declarations.foldl apply t) := by
  induction declarations generalizing t s with
  | nil => exact .refl t scope
  | cons operation declarations ih =>
    obtain ⟨first, others⟩ := List.forall_mem_cons.1 inside
    have changed : t.SameBut scope (t.apply operation) := by
      cases operation with
      | push | pop => exact first.elim
      | declareVariable i v =>
        obtain rfl : i = scope := first
        exact Table.vars.sameBut_declare found v
      | declareFunction i f =>
        obtain rfl : i = scope := first
        exact Table.funs.sameBut_declare found f
    have still := changed.parent
    rw [found, Option.map_some] at still
    obtain ⟨there, found', -⟩ := Option.map_eq_some_iff.1 still
    exact changed.trans (ih found' others)

/-! ### What a declaration does to look-ups -/

/-- The same is found whenever scopes are asked outwards from the same place. -/
theorem Seeks.unique {answer : Scope → Option α} {start : Option Nat} {found found' : Option α}
    (h : t.Seeks answer start found) (h' : t.Seeks answer start found') : found = found' := by
  induction h with
  | outside =>
    cases h'
    rfl
  | closed absent =>
    cases h' with
    | closed => rfl
    | here open' | further open' => exact absurd (absent.symm.trans open') nofun
  | here isOpen answers =>
    cases h' with
    | closed absent => exact absurd (absent.symm.trans isOpen) nofun
    | here open' answers' =>
      obtain rfl := Option.some.inj (isOpen.symm.trans open')
      exact answers.symm.trans answers'
    | further open' silent =>
      obtain rfl := Option.some.inj (isOpen.symm.trans open')
      exact absurd (silent.symm.trans answers) nofun
  | further isOpen silent _ ih =>
    cases h' with
    | closed absent => exact absurd (absent.symm.trans isOpen) nofun
    | here open' answers =>
      obtain rfl := Option.some.inj (isOpen.symm.trans open')
      exact absurd (silent.symm.trans answers) nofun
    | further open' _ rest =>
      obtain rfl := Option.some.inj (isOpen.symm.trans open')
      exact ih rest

/-- If all scopes that may be asked from a place answer in another row as they do in this
one, the same is found there. -/
theorem Seeks.transfer {answer : Scope → Option α} {start : Option Nat} {found : Option α}
    (h : t.Seeks answer start found) (same : t.SameBut scope t') (asked : Nat → Prop)
    (answers : ∀ s s', asked scope → t.get? scope = some s → t'.get? scope = some s' →
      answer s' = answer s)
    (goesOn : ∀ i s parent, asked i → t.get? i = some s → answer s = none →
      s.parent? = some parent → asked parent)
    (begins : ∀ i, start = some i → asked i) : t'.Seeks answer start found := by
  -- The scope of an index in the one row has a counterpart in the other one.
  have counterpart {i : Nat} {s : Scope} (reached : asked i) (isOpen : t.get? i = some s) :
      ∃ s', t'.get? i = some s' ∧ s'.parent? = s.parent? ∧ answer s' = answer s := by
    have links := same.parents i
    rw [isOpen, Option.map_some] at links
    obtain ⟨s', open', parent⟩ := Option.map_eq_some_iff.1 links
    refine ⟨s', open', parent, ?_⟩
    by_cases other : i = scope
    · subst other
      exact answers s s' reached isOpen open'
    · rw [same.others i other, isOpen] at open'
      rw [Option.some.inj open']
  induction h with
  | outside => exact .outside
  | @closed i absent =>
    refine .closed ?_
    have links := same.parents i
    rw [absent, Option.map_none] at links
    exact Option.map_eq_none_iff.1 links
  | here isOpen answered =>
    obtain ⟨s', open', -, answers'⟩ := counterpart (begins _ rfl) isOpen
    exact .here open' (answers'.trans answered)
  | @further i s result isOpen silent _ ih =>
    obtain ⟨s', open', parent, answers'⟩ := counterpart (begins _ rfl) isOpen
    refine .further open' (answers'.trans silent) ?_
    rw [parent]
    exact ih fun j outer => goesOn i s j (begins _ rfl) isOpen silent outer

/-- The way outwards from a scope leads past nearer scopes, listed from the inside, to
another one. -/
inductive Leads (t : ScopeTree) : Nat → List Nat → Nat → Prop where
  | here {scope : Nat} {s : Scope} (found : t.get? scope = some s) : Leads t scope [] scope
  | further {inner parent scope : Nat} {s : Scope} {nearer : List Nat}
      (found : t.get? inner = some s) (link : s.parent? = some parent)
      (rest : Leads t parent nearer scope) : Leads t inner (inner :: nearer) scope

namespace Table

/-- What the scope of an index itself holds under a name. -/
def heldAt? (own : Table α) (t : ScopeTree) (scope : Nat) (sought : String) : Option α :=
  (t.get? scope).bind (own.held? · sought)

/-- A scope is on the way outwards from another one, and no nearer scope on that way holds
the name. -/
def InSight (own : Table α) (t : ScopeTree) (sought : String) (inner scope : Nat) : Prop :=
  ∃ nearer, t.Leads inner nearer scope ∧ ∀ i ∈ nearer, own.heldAt? t i sought = none

/-- A declaration in a scope succeeds exactly if the scope itself does not hold its name,
and otherwise changes nothing. Where the scope is in sight the declaration is what its
name means, and there alone; all other names, the other table and all links are as before. -/
structure Laws (own : Table α) (other : Table β) (t : ScopeTree) (scope : Nat) (a : α) :
    Prop where
  declares_iff : (own.declare t scope a).2 = true ↔ own.heldAt? t scope (own.name a) = none
  unchanged : (own.declare t scope a).2 = false → (own.declare t scope a).1 = t
  shown : (own.declare t scope a).2 = true → ∀ inner, own.InSight t (own.name a) inner scope →
    own.lookup? (own.declare t scope a).1 inner (own.name a) = some a
  hidden : ∀ inner, ¬ own.InSight t (own.name a) inner scope →
    own.lookup? (own.declare t scope a).1 inner (own.name a) = own.lookup? t inner (own.name a)
  others : ∀ inner sought, own.name a ≠ sought →
    own.lookup? (own.declare t scope a).1 inner sought = own.lookup? t inner sought
  otherTable : ∀ inner sought,
    other.lookup? (own.declare t scope a).1 inner sought = other.lookup? t inner sought
  parents : ∀ inner, ((own.declare t scope a).1.get? inner).map Scope.parent? =
    (t.get? inner).map Scope.parent?

/-- In an ordered row, what is looked up is what is found on the way outwards. -/
theorem seeks_lookup? (own : Table α) (ordered : t.Ordered) (inner : Nat) (sought : String) :
    t.Seeks (own.held? · sought) (some inner) (own.lookup? t inner sought) := by
  rw [own.lookup?_eq]
  exact ordered.seeks_enclosing inner

/-- What a scope in sight holds is what its name means. -/
theorem InSight.lookup?_eq (h : own.InSight t sought inner scope) (ordered : t.Ordered)
    (same : t.SameBut scope t') (found : t'.get? scope = some s)
    (held : own.held? s sought = some a) : own.lookup? t' inner sought = some a := by
  refine (own.seeks_lookup? (same.ordered ordered) inner sought).unique ?_
  obtain ⟨nearer, leads, silent⟩ := h
  induction leads with
  | here => exact .here found held
  | @further inner parent scope before nearer isOpen link _ ih =>
    obtain ⟨first, others⟩ := List.forall_mem_cons.1 silent
    by_cases arrived : inner = scope
    · exact .here (arrived ▸ found) held
    · have open' : t'.get? inner = some before := (same.others inner arrived).trans isOpen
      have free : own.held? before sought = none := by
        rw [heldAt?, isOpen] at first
        exact first
      refine .further open' free ?_
      rw [link]
      exact ih same found others

/-- What is in sight of a scope is in sight of those inside it that are silent. -/
theorem InSight.of_parent {parent : Nat} (h : own.InSight t sought parent scope)
    (found : t.get? inner = some s) (silent : own.held? s sought = none)
    (link : s.parent? = some parent) : own.InSight t sought inner scope := by
  obtain ⟨nearer, leads, others⟩ := h
  refine ⟨inner :: nearer, .further found link leads, List.forall_mem_cons.2 ⟨?_, others⟩⟩
  rw [heldAt?, found]
  exact silent

/-- A name means what it meant before if the scope that changed is not asked for it, or
answers as before. -/
theorem lookup?_eq_of_sameBut (own : Table α) {there : Scope} (ordered : t.Ordered)
    (same : t.SameBut scope t') (found : t.get? scope = some s)
    (found' : t'.get? scope = some there) (inner : Nat)
    (answers : own.InSight t sought inner scope → own.held? there sought = own.held? s sought) :
    own.lookup? t' inner sought = own.lookup? t inner sought := by
  refine (own.seeks_lookup? (same.ordered ordered) inner sought).unique ?_
  -- From the scopes that are asked, no other scope is in sight than from the first one.
  refine (own.seeks_lookup? ordered inner sought).transfer same
    (fun i => own.InSight t sought i scope → own.InSight t sought inner scope) ?_ ?_ ?_
  · intro before after reached here here'
    obtain rfl := Option.some.inj (found.symm.trans here)
    obtain rfl := Option.some.inj (found'.symm.trans here')
    exact answers (reached ⟨[], .here found, nofun⟩)
  · exact fun i before parent reached here silent link sight =>
      reached (sight.of_parent here silent link)
  · rintro i ⟨⟩
    exact id

/-- Two tables are apart if what is declared in the one is not held in the other. -/
def Apart (own : Table α) (other : Table β) : Prop :=
  ∀ s a sought, other.held? (own.extend s a) sought = other.held? s sought

/-- In an ordered row, declarations in an open scope and look-ups follow the laws. -/
theorem laws {other : Table β} (apart : own.Apart other) (ordered : t.Ordered)
    (isOpen : scope < t.size) (a : α) : own.Laws other t scope a := by
  obtain ⟨s, found⟩ : ∃ s, t.get? scope = some s := ⟨_, Array.getElem?_eq_getElem isOpen⟩
  have heldAt : own.heldAt? t scope (own.name a) = own.held? s (own.name a) := by
    rw [heldAt?, found, Option.bind_some]
  cases held : own.held? s (own.name a) with
  | some b =>
    have refused := own.declare_of_taken found held
    constructor <;> simp [refused, heldAt, held]
  | none =>
    have accepted : (own.declare t scope a).2 = true := by rw [own.declare_of_free found held]
    have same := own.sameBut_declare found a
    have found' := own.get?_declare found held
    have gains (sought : String) : own.held? (own.extend s a) sought =
        if own.name a = sought then some a else own.held? s sought :=
      own.held?_extend s a sought held
    constructor
    · exact ⟨fun _ => heldAt.trans held, fun _ => accepted⟩
    · exact fun refused => absurd (refused.symm.trans accepted) nofun
    · intro _ inner sight
      exact sight.lookup?_eq ordered same found' ((gains _).trans (if_pos rfl))
    · intro inner blind
      exact own.lookup?_eq_of_sameBut ordered same found found' inner fun sight =>
        absurd sight blind
    · intro inner sought ne
      exact own.lookup?_eq_of_sameBut ordered same found found' inner fun _ =>
        (gains sought).trans (if_neg ne)
    · intro inner sought
      exact other.lookup?_eq_of_sameBut ordered same found found' inner fun _ => apart s a sought
    · exact same.parents

end Table

/-- Scopes behave as nested tables. In every row that is reached by opening scopes inside
open ones only, variables and functions are declared in open scopes and looked up by the
same laws, the ones apart from the others; and where a scope is opened, declared in and
closed, the row is as it was before. -/
theorem declarations_nest {operations : List Operation}
    (opens : ∀ before parent, before ++ [.push parent] <+: operations →
      parent < (after before).size) :
    (∀ scope, scope < (after operations).size →
      (∀ v, Table.vars.Laws Table.funs (after operations) scope v) ∧
        ∀ f, Table.funs.Laws Table.vars (after operations) scope f) ∧
      ∀ (parent : Nat) (declarations : List Operation),
        (∀ operation ∈ declarations,
          operation.DeclaresIn ((after operations).push parent).2) →
        (declarations.foldl apply ((after operations).push parent).1).pop =
          (after operations, some parent) := by
  have ordered := ordered_after opens
  constructor
  · intro scope isOpen
    constructor
    · exact fun v => Table.laws (fun _ _ _ => rfl) ordered isOpen v
    · exact fun f => Table.laws (fun _ _ _ => rfl) ordered isOpen f
  · intro parent declarations inside
    have opened : ((after operations).push parent).1.get? (after operations).size =
        some (.fresh (some parent)) := by
      rw [get?_push, if_pos rfl]
    exact (sameBut_declarations opened inside).pop_eq (size_after_pos operations)

/-- Two scopes stand in the root and one more in the first of them. The root and that
innermost scope hold the same name. -/
def shadowingSample : List Operation :=
  [.push 0, .push 1, .push 0, .declareVariable 0 ⟨0, "x", .int, false⟩,
    .declareVariable 2 ⟨1, "x", .int, false⟩]

/-- A third variable of the name is declared in the first scope. It is seen from there,
is hidden from the innermost scope, and is out of the way of the second scope. -/
theorem declarations_nest_shadowingSample :
    (∀ before parent, before ++ [.push parent] <+: shadowingSample →
      parent < (after before).size) ∧
    Table.vars.Laws Table.funs (after shadowingSample) 1 ⟨2, "x", .bool, false⟩ ∧
    ((after shadowingSample).declareVariable 1 ⟨2, "x", .bool, false⟩).2 = true ∧
    [0, 1, 2, 3].map (fun inner => (((after shadowingSample).declareVariable 1
      ⟨2, "x", .bool, false⟩).1.lookupVariable? inner "x").map Variable.id) =
        [some 0, some 2, some 1, some 0] := by
  have opens : ∀ before parent, before ++ [.push parent] <+: shadowingSample →
      parent < (after before).size := by
    intro before parent reached
    have front : before = shadowingSample.take before.length :=
      List.prefix_iff_eq_take.1 ((List.prefix_append _ _).trans reached)
    have next : shadowingSample[before.length]? = some (.push parent) := by
      obtain ⟨behind, split⟩ := reached
      simp [← split]
    rw [front]
    generalize before.length = i at next
    match i with
    | 0 | 1 | 2 =>
      cases next
      decide
    | 3 | 4 | _ + 5 => cases next
  exact ⟨opens, ((declarations_nest opens).1 1 (by decide)).1 _, by decide, by decide⟩

end Scriptlet.ScopeTree
