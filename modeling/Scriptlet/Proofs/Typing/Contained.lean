import Scriptlet.Proofs.Lowering.Flattening
import Scriptlet.Proofs.Resolving.Primitives
import Scriptlet.Proofs.Scoping.Arena

/-!
# Where types without values can be met

Two types are no types of values: that of a call made for its effect alone and that
of what has no meaning. Resolving keeps the first out of everything but whole
expression statements, and the second out of everything as long as nothing is faulty:
where it arises, a token is missing, something was reported, or a variable had it
before. Reports name neither. This is shown for every step and, from that, for every
tree.
-/

namespace Scriptlet

/-- The type is not that of a call made for its effect alone, and it is that of what has
no meaning only if something is faulty. -/
structure Ty.Contained (faulty : Prop) (type : Ty) : Prop where
  ne_void : type ≠ .void
  faulty_of_error : type = .error → faulty

/-- What is contained if something is not faulty is contained if it is. -/
theorem Ty.Contained.mono {faulty faulty' : Prop} {type : Ty} (h : type.Contained faulty)
    (implies : faulty → faulty') : type.Contained faulty' :=
  ⟨h.ne_void, fun error => implies (h.faulty_of_error error)⟩

/-- The type of integers is one of values. -/
theorem Ty.contained_int {faulty : Prop} : Ty.Contained faulty .int := ⟨nofun, nofun⟩

namespace Problem

/-- The types that a problem names. -/
def types : Problem → List Ty
  | .invalidNumber _ type => [type]
  | .undefinedUnaryOperator _ operand => [operand]
  | .undefinedBinaryOperator _ left right => [left, right]
  | .cannotConvert source target => [source, target]
  | _ => []

/-- All types that a problem names are types of values. -/
def NamesValues (problem : Problem) : Prop :=
  ∀ type ∈ problem.types, type ≠ .void ∧ type ≠ .error

end Problem

namespace Bound

mutual

/-- The expressions inside an expression, at any depth. -/
def Expr.operands : Expr → List Expr
  | .literal _ | .name _ | .error => []
  | .assignment _ value => value :: value.operands
  | .unary _ operand => operand :: operand.operands
  | .binary left _ right => left :: left.operands ++ right :: right.operands
  | .call _ arguments => Expr.operandsAll arguments

/-- The expressions of a row and all expressions inside them. -/
def Expr.operandsAll : List Expr → List Expr
  | [] => []
  | e :: es => e :: e.operands ++ Expr.operandsAll es

end

/-- The expressions of a statement that stand where a value is required: all but the
whole of an expression statement. -/
def Stmt.values : Stmt → List Expr
  | .declaration _ initializer => initializer :: initializer.operands
  | .expression inner => inner.operands
  | .ifThen condition _ | .ifElse condition _ _ | .whileLoop condition _
  | .gotoIf _ condition _ => condition :: condition.operands
  | .forLoop _ lower upper _ => lower :: lower.operands ++ upper :: upper.operands
  | .block _ | .goto _ | .label _ => []

variable {faulty : Prop}

/-- The expression and all expressions inside it have values, unless something is faulty. -/
def Expr.HasValue (faulty : Prop) (e : Expr) : Prop :=
  ∀ inner ∈ e :: e.operands, inner.type.Contained faulty

/-- The expressions inside an expression have values, and it has one itself unless it is
a call, unless something is faulty. -/
structure Expr.Contained (faulty : Prop) (e : Expr) : Prop where
  operands : ∀ inner ∈ e.operands, inner.type.Contained faulty
  call_of_void : e.type = .void → ∃ f arguments, e = .call f arguments
  faulty_of_error : e.type = .error → faulty

/-- Where a statement requires values there are some, unless something is faulty, and the
whole of an expression statement is made for its effect alone only if it is a call. -/
structure Stmt.Contained (faulty : Prop) (s : Stmt) : Prop where
  values : ∀ e ∈ s.values, e.type.Contained faulty
  call_of_void : ∀ e, s = .expression e → e.type = .void → ∃ f arguments, e = .call f arguments

namespace Expr

variable {e left right : Expr} {es : List Expr}

theorem HasValue.type (h : e.HasValue faulty) : e.type.Contained faulty :=
  h e List.mem_cons_self

/-- What has a value may be used where none is required. -/
theorem HasValue.contained (h : e.HasValue faulty) : e.Contained faulty where
  operands inner hinner := h inner (List.mem_cons_of_mem e hinner)
  call_of_void void := absurd void h.type.ne_void
  faulty_of_error := h.type.faulty_of_error

/-- What is not made for its effect alone has a value. -/
theorem Contained.hasValue (h : e.Contained faulty) (ne_void : e.type ≠ .void) :
    e.HasValue faulty :=
  List.forall_mem_cons.2 ⟨⟨ne_void, h.faulty_of_error⟩, h.operands⟩

/-- An expression without expressions in it has a value if its type is one of values. -/
theorem hasValue_of_type (leaf : e.operands = []) (type : e.type.Contained faulty) :
    e.HasValue faulty := by
  rw [HasValue, leaf]
  exact List.forall_mem_singleton.2 type

/-- What has no meaning stands only where something is faulty. -/
theorem hasValue_error (h : faulty) : error.HasValue faulty :=
  hasValue_of_type rfl ⟨nofun, fun _ => h⟩

/-- All expressions in a row of expressions with values have values. -/
theorem hasValue_operandsAll (h : ∀ e ∈ es, e.HasValue faulty) :
    ∀ inner ∈ operandsAll es, inner.type.Contained faulty := by
  induction es with
  | nil => exact nofun
  | cons e es ih =>
    obtain ⟨first, others⟩ := List.forall_mem_cons.1 h
    exact List.forall_mem_append.2 ⟨first, ih others⟩

/-- An assignment of a value has that value. -/
theorem HasValue.assignment (h : e.HasValue faulty) (target : Variable) :
    (assignment target e).HasValue faulty :=
  List.forall_mem_cons.2 ⟨h.type, h⟩

/-- An operator of the table makes a value of a value. -/
theorem HasValue.unary (h : e.HasValue faulty) {o : UnaryOperator}
    (row : o ∈ UnaryOperator.table) : (unary o e).HasValue faulty := by
  have rows : ∀ o ∈ UnaryOperator.table, o.result ≠ .void ∧ o.result ≠ .error := by decide
  obtain ⟨ne_void, ne_error⟩ := rows o row
  exact List.forall_mem_cons.2 ⟨⟨ne_void, fun error => absurd error ne_error⟩, h⟩

/-- An operator of the table makes a value of two values. -/
theorem HasValue.binary (h : left.HasValue faulty) (h' : right.HasValue faulty)
    {o : BinaryOperator} (row : o ∈ BinaryOperator.table) :
    (binary left o right).HasValue faulty := by
  have rows : ∀ o ∈ BinaryOperator.table, o.result ≠ .void ∧ o.result ≠ .error := by decide
  obtain ⟨ne_void, ne_error⟩ := rows o row
  exact List.forall_mem_cons.2
    ⟨⟨ne_void, fun error => absurd error ne_error⟩, List.forall_mem_append.2 ⟨h, h'⟩⟩

/-- A call of a function of the language with values may be made for its effect alone. -/
theorem contained_call {f : Function} (known : f ∈ Function.builtins)
    (h : ∀ e ∈ es, e.HasValue faulty) : (call f es).Contained faulty where
  operands := hasValue_operandsAll h
  call_of_void _ := ⟨f, es, rfl⟩
  faulty_of_error error := by
    have returns : ∀ f ∈ Function.builtins, f.returns ≠ .error := by decide
    exact absurd error (returns f known)

end Expr

/-- A statement that is no expression statement is contained if its values are. -/
theorem Stmt.contained_of_values {s : Stmt} (other : ∀ inner, s ≠ .expression inner)
    (values : ∀ e ∈ s.values, e.type.Contained faulty) : s.Contained faulty :=
  ⟨values, fun inner same => absurd same (other inner)⟩

/-- A contained expression may be the whole of a statement. -/
theorem Expr.Contained.statement {e : Expr} (h : e.Contained faulty) :
    (Stmt.expression e).Contained faulty := by
  refine ⟨h.operands, ?_⟩
  rintro inner ⟨⟩
  exact h.call_of_void

end Bound

namespace ScopeTree

variable {faulty : Prop} {t : ScopeTree} {scope : Nat} {name : String} {v : Variable} {f : Function}

/-- All variables have types of values unless something is faulty, and all functions are
functions of the language. -/
structure Contained (faulty : Prop) (t : ScopeTree) : Prop where
  vars : ∀ s ∈ t.scopes, ∀ v ∈ s.vars, v.type.Contained faulty
  funs : ∀ s ∈ t.scopes, ∀ f ∈ s.funs, f ∈ Function.builtins

/-- A scope just opened holds nothing. -/
theorem Contained.push (h : t.Contained faulty) (parent : Nat) :
    (t.push parent).1.Contained faulty := by
  constructor
  · intro s hs
    rcases Array.mem_push.1 hs with hs | rfl
    · exact h.vars s hs
    · exact nofun
  · intro s hs
    rcases Array.mem_push.1 hs with hs | rfl
    · exact h.funs s hs
    · exact nofun

/-- Closing a scope leaves the others. -/
theorem Contained.pop (h : t.Contained faulty) : t.pop.1.Contained faulty := by
  have left : ∀ s ∈ t.pop.1.scopes, s ∈ t.scopes := by
    intro s hs
    obtain ⟨i, found⟩ := Array.mem_iff_getElem?.1 hs
    exact Array.mem_of_getElem? (get?_of_pop found)
  exact ⟨fun s hs => h.vars s (left s hs), fun s hs => h.funs s (left s hs)⟩

/-- A declaration adds one variable to a scope. -/
theorem Contained.declareVariable (h : t.Contained faulty) (hv : v.type.Contained faulty)
    (scope : Nat) : (t.declareVariable scope v).1.Contained faulty := by
  rw [ScopeTree.declareVariable]
  split
  · exact h
  · split
    · exact h
    · have changed : ∀ s ∈ t.scopes.modify scope fun s => { s with vars := s.vars ++ [v] },
          ∃ before ∈ t.scopes, s.vars ⊆ before.vars ++ [v] ∧ s.funs = before.funs := by
        intro s hs
        obtain ⟨i, hi, rfl⟩ := Array.mem_iff_getElem.1 hs
        have inside : i < t.scopes.size := by simpa using hi
        refine ⟨t.scopes[i], Array.getElem_mem inside, ?_⟩
        rw [Array.getElem_modify]
        split
        · exact ⟨List.Subset.refl _, rfl⟩
        · exact ⟨List.subset_append_left _ _, rfl⟩
      constructor
      · intro s hs w hw
        obtain ⟨before, hbefore, hvars, -⟩ := changed s hs
        rcases List.mem_append.1 (hvars hw) with old | new
        · exact h.vars before hbefore w old
        · exact List.mem_singleton.1 new ▸ hv
      · intro s hs
        obtain ⟨before, hbefore, -, hfuns⟩ := changed s hs
        exact hfuns ▸ h.funs before hbefore

/-- Declarations add one variable after the other. -/
theorem Contained.foldl_declareVariable (h : t.Contained faulty) {vars : List Variable}
    (types : ∀ v ∈ vars, v.type.Contained faulty) (scope : Nat) :
    (vars.foldl (fun tree v => (tree.declareVariable scope v).1) t).Contained faulty := by
  induction vars generalizing t with
  | nil => exact h
  | cons v vars ih =>
    obtain ⟨first, others⟩ := List.forall_mem_cons.1 types
    exact ih (h.declareVariable first scope) others

/-- The variables of a scope are variables of the tree. -/
theorem Contained.varsIn (h : t.Contained faulty) (scope : Nat) :
    ∀ v ∈ t.varsIn scope, v.type.Contained faulty := by
  rw [ScopeTree.varsIn]
  cases found : t.get? scope with
  | none => exact List.forall_mem_nil _
  | some s => exact h.vars s (Array.mem_of_getElem? found)

/-- The scopes met on the way outwards are scopes of the tree. -/
theorem mem_of_mem_outwards {s : Scope} {limit : Nat} {scope? : Option Nat}
    (h : s ∈ t.outwards limit scope?) : s ∈ t.scopes := by
  induction limit generalizing scope? with
  | zero => cases h
  | succ limit ih =>
    cases scope? with
    | none => cases h
    | some scope =>
      rw [outwards] at h
      split at h
      · cases h
      · next met found =>
        rcases List.mem_cons.1 h with rfl | h
        · exact Array.mem_of_getElem? found
        · exact ih h

/-- A variable that is looked up is one of the scopes. -/
theorem Contained.lookupVariable? (h : t.Contained faulty)
    (found : t.lookupVariable? scope name = some v) : v.type.Contained faulty := by
  obtain ⟨s, hs, here⟩ := List.exists_of_findSome?_eq_some found
  exact h.vars s (mem_of_mem_outwards hs) v (List.mem_of_find?_eq_some here)

/-- A function that is looked up is one of the language. -/
theorem Contained.lookupFunction? (h : t.Contained faulty)
    (found : t.lookupFunction? scope name = some f) : f ∈ Function.builtins := by
  obtain ⟨s, hs, here⟩ := List.exists_of_findSome?_eq_some found
  exact h.funs s (mem_of_mem_outwards hs) f (List.mem_of_find?_eq_some here)

end ScopeTree

namespace Resolving

open Reporting

/-- What a computation ends with, if types are contained behind it. -/
structure Kept (faulty : Prop) {α : Type} (good : α → Prop) (result : Reported Scoping α) :
    Prop where
  tree : result.state.tree.Contained faulty
  value : good result.value
  reports : ∀ d ∈ result.diagnostics, d.problem.NamesValues

/-- Where types are contained, the computation keeps them so and has a good result, if
its reports count as faults. -/
def Keeps (faulty : Prop) {α : Type} (m : Resolving α) (good : α → Prop) : Prop :=
  ∀ s : Scoping, s.tree.Contained faulty → ((m.run s).diagnostics ≠ [] → faulty) →
    Kept faulty good (m.run s)

variable {faulty : Prop} {α β : Type} {m : Resolving α} {f : α → Resolving β} {good : α → Prop}
  {good' : β → Prop} {problem : Problem} {span : Span}

theorem keeps_pure {a : α} (h : good a) : Keeps faulty (pure a) good :=
  fun _ contained _ => ⟨contained, h, List.forall_mem_nil _⟩

/-- A sequence keeps what its parts keep. -/
theorem Keeps.bind (h : Keeps faulty m good) (h' : ∀ a, good a → Keeps faulty (f a) good') :
    Keeps faulty (m >>= f) good' := by
  intro s contained excused
  have first := h s contained fun reported =>
    excused (List.append_ne_nil_of_left_ne_nil reported _)
  have second := h' _ first.value _ first.tree fun reported =>
    excused (List.append_ne_nil_of_right_ne_nil _ reported)
  exact ⟨second.tree, second.value, List.forall_mem_append.2 ⟨first.reports, second.reports⟩⟩

/-- Reports inside others count as faults if these do. -/
theorem excused_inside {inside ds : List Diagnostic} (excused : ds ≠ [] → faulty)
    (h : inside <:+: ds) : inside ≠ [] → faulty :=
  fun reported => excused fun silent => reported (List.eq_nil_of_infix_nil (silent ▸ h))

/-- Types are contained behind a computation that keeps them so, if its reports stand
inside others that count as faults. -/
theorem Keeps.tree_behind {s : Scoping} {ds : List Diagnostic} (h : Keeps faulty m good)
    (tree : s.tree.Contained faulty) (excused : ds ≠ [] → faulty)
    (reports : (m.run s).diagnostics <:+: ds) : (m.run s).state.tree.Contained faulty :=
  (h s tree (excused_inside excused reports)).tree

/-- A good result may be called good for less. -/
theorem Keeps.weaken {better : α → Prop} (h : Keeps faulty m better)
    (implies : ∀ a, better a → good a) : Keeps faulty m good := by
  intro s contained excused
  have kept := h s contained excused
  exact ⟨kept.tree, implies _ kept.value, kept.reports⟩

/-- What is reported is a fault. -/
theorem keeps_report (names : problem.NamesValues) :
    Keeps faulty (report problem span) fun _ => faulty :=
  fun _ contained excused => ⟨contained, excused (List.cons_ne_nil _ _),
    List.forall_mem_singleton.2 names⟩

/-- What stands behind a report stands behind a fault. -/
theorem keeps_reported {a : α} (names : problem.NamesValues) (h : faulty → good a) :
    Keeps faulty (report problem span >>= fun _ => pure a) good :=
  (keeps_report names).bind fun _ fault => keeps_pure (h fault)

/-- A variable that is found has a contained type. -/
theorem keeps_visibleVariable (name : String) :
    Keeps faulty (visibleVariable name) fun found => ∀ v, found = some v →
      v.type.Contained faulty :=
  fun _ contained _ =>
    ⟨contained, fun _ found => contained.lookupVariable? found, List.forall_mem_nil _⟩

/-- A function that is found is one of the language. -/
theorem keeps_visibleFunction (name : String) :
    Keeps faulty (visibleFunction name) fun found => ∀ f, found = some f →
      f ∈ Function.builtins :=
  fun _ contained _ =>
    ⟨contained, fun _ found => contained.lookupFunction? found, List.forall_mem_nil _⟩

/-- A new variable has the type that it is given. -/
theorem keeps_newVariable (name : String) (type : Ty) (isReadOnly : Bool) :
    Keeps faulty (newVariable name type isReadOnly) fun v => v.type = type :=
  fun _ contained _ => ⟨contained, rfl, List.forall_mem_nil _⟩

/-- A variable with a contained type may be declared. -/
theorem keeps_declare {v : Variable} (h : v.type.Contained faulty) :
    Keeps faulty (declare v) fun _ => True :=
  fun s contained _ => ⟨contained.declareVariable h s.current, trivial, List.forall_mem_nil _⟩

/-- A scope of its own leaves the others contained. -/
theorem Keeps.inScope (h : Keeps faulty m good) : Keeps faulty (Resolving.inScope m) good := by
  have opens : Keeps faulty openScope fun _ => True :=
    fun s contained _ => ⟨contained.push s.current, trivial, List.forall_mem_nil _⟩
  have closes : Keeps faulty closeScope fun _ => True :=
    fun _ contained _ => ⟨contained.pop, trivial, List.forall_mem_nil _⟩
  refine opens.bind fun _ _ => h.bind fun a value => ?_
  exact closes.bind fun _ _ => keeps_pure value

/-- A check for a value lets values pass. -/
theorem keeps_asValue {e : Bound.Expr} (h : e.Contained faulty) :
    Keeps faulty (asValue span e) fun bound => bound.HasValue faulty := by
  unfold asValue
  split
  · exact keeps_reported nofun Bound.Expr.hasValue_error
  · next ne_void => exact keeps_pure (h.hasValue ne_void)

/-- A problem that names two types names types of values if both are. -/
theorem namesValues_cannotConvert {source target : Ty} (h : source ≠ .void)
    (known : source ≠ .error) (h' : target ≠ .void) (known' : target ≠ .error) :
    (Problem.cannotConvert source target).NamesValues :=
  List.forall_mem_cons.2 ⟨⟨h, known⟩, List.forall_mem_singleton.2 ⟨h', known'⟩⟩

/-- A check for a type of values lets values pass. -/
theorem keeps_asType {type : Ty} {e : Bound.Expr} (h : e.HasValue faulty) (ne_void : type ≠ .void)
    (ne_error : type ≠ .error) :
    Keeps faulty (asType type span e) fun bound => bound.HasValue faulty := by
  unfold asType
  split
  · next misfit =>
    exact keeps_reported (namesValues_cannotConvert h.type.ne_void misfit.1 ne_void ne_error)
      Bound.Expr.hasValue_error
  · exact keeps_pure h

/-- Values that do not fit the parameters of a function are a fault. -/
theorem keeps_argumentsFit {arguments : List (Span × Bound.Expr)} {parameters : List Parameter}
    (values : ∀ argument ∈ arguments, argument.2.HasValue faulty)
    (types : ∀ p ∈ parameters, p.type ≠ .void ∧ p.type ≠ .error) :
    Keeps faulty (argumentsFit arguments parameters) fun fit => fit = false → faulty := by
  induction arguments generalizing parameters with
  | nil => exact keeps_pure nofun
  | cons argument arguments ih =>
    cases parameters with
    | nil => exact keeps_pure nofun
    | cons parameter parameters =>
      obtain ⟨span, e⟩ := argument
      obtain ⟨value, values⟩ := List.forall_mem_cons.1 values
      obtain ⟨⟨ne_void, ne_error⟩, types⟩ := List.forall_mem_cons.1 types
      -- An argument that does not fit either was reported or has no meaning.
      have rest (misfit : e.type ≠ parameter.type → faulty) : Keeps faulty (do
          let restFit ← argumentsFit arguments parameters
          return e.type == parameter.type && restFit) fun fit => fit = false → faulty := by
        refine (ih values types).bind fun restFit others => keeps_pure fun unfit => ?_
        rcases (Bool.and_eq_false_iff).1 unfit with here | there
        · exact misfit (beq_eq_false_iff_ne.1 here)
        · exact others there
      rw [argumentsFit]
      split
      · next misfit =>
        have names := namesValues_cannotConvert value.type.ne_void misfit.1 ne_void ne_error
        exact (keeps_report names).bind fun _ fault => rest fun _ => fault
      · next fits =>
        refine rest fun unfit => value.type.faulty_of_error ?_
        exact Decidable.byContradiction fun known => fits ⟨known, unfit⟩

end Resolving

/-- The token denotes a value, if any, and it is in the source unless something is faulty. -/
structure Token.Plain (faulty : Prop) (token : Token) : Prop where
  literal : token.literal? ≠ some .void
  present : token.isMissing = true → faulty

namespace Syntax

open Reporting Resolving

variable {faulty : Prop}

/-- The token of a leaf is plain. -/
def Node.Plain (faulty : Prop) : Node → Prop
  | .leaf token => token.Plain faulty
  | .branch .. => True

mutual

/-- A tree is plain if its tokens are. -/
theorem Node.every_plain (node : Node) (h : ∀ token ∈ node.leaves, token.Plain faulty) :
    node.Every (Plain faulty) := by
  cases node with
  | leaf token => exact h token List.mem_cons_self
  | branch name span children => exact ⟨trivial, Node.allEvery_plain children h⟩

/-- A row of trees is plain if its tokens are. -/
theorem Node.allEvery_plain (nodes : List Node)
    (h : ∀ token ∈ leavesOfAll nodes, token.Plain faulty) : AllEvery (Plain faulty) nodes := by
  cases nodes with
  | nil => trivial
  | cons node nodes =>
    obtain ⟨first, others⟩ := List.forall_mem_append.1 h
    exact ⟨node.every_plain first, Node.allEvery_plain nodes others⟩

end

namespace Expr

variable {left right bound : Bound.Expr} {arguments : List (Span × Bound.Expr)} {span : Span}
  {target : Variable} {type : Ty}

/-- The target of an assignment of a value has a contained type. -/
theorem keeps_assignee (name : String) (h : type.Contained faulty) :
    Keeps faulty (resolve.assignee name type) fun target => target.type.Contained faulty := by
  refine (keeps_visibleVariable name).bind fun found known => ?_
  cases found with
  | some v => exact keeps_pure (known v rfl)
  | none =>
    refine (keeps_newVariable name type false).bind fun v same => ?_
    have contained : v.type.Contained faulty := same ▸ h
    exact (keeps_declare contained).bind fun _ _ => keeps_pure contained

/-- A value that does not fit its target is a fault. -/
theorem keeps_fitted (h : target.type.Contained faulty) (h' : bound.HasValue faulty) :
    Keeps faulty (fitted span target bound) fun e => e.HasValue faulty := by
  unfold fitted
  split
  · next misfit =>
    have names := namesValues_cannotConvert h'.type.ne_void misfit.1 h.ne_void misfit.2.1
    exact keeps_reported names Bound.Expr.hasValue_error
  · exact keeps_pure (h'.assignment target)

/-- An assignment of a value to a target has a value. -/
theorem keeps_assigned (identifier equals : Token) (h : target.type.Contained faulty)
    (h' : bound.HasValue faulty) :
    Keeps faulty (assigned identifier equals span target bound) fun e => e.HasValue faulty := by
  have names : (Problem.cannotAssign identifier.text).NamesValues := nofun
  unfold assigned
  split
  · exact (keeps_report names).bind fun _ _ => keeps_fitted h h'
  · exact keeps_fitted h h'

/-- An operator in front of a value makes one, or the value stands in. -/
theorem keeps_operated (operator : Token) (h : bound.HasValue faulty) :
    Keeps faulty (operated operator bound) fun e => e.HasValue faulty := by
  unfold operated
  split
  · next error => exact keeps_pure (Bound.Expr.hasValue_error (h.type.faulty_of_error error))
  · next ne_error =>
    split
    · next o found => exact keeps_pure (h.unary (UnaryOperator.find?_eq_some found).1)
    · exact keeps_reported (List.forall_mem_singleton.2 ⟨h.type.ne_void, ne_error⟩) fun _ => h

/-- An operator between two values makes one, or the left value stands in. -/
theorem keeps_combined (operator : Token) (h : left.HasValue faulty) (h' : right.HasValue faulty) :
    Keeps faulty (combined operator left right) fun e => e.HasValue faulty := by
  unfold combined
  split
  · next error =>
    have fault := error.elim h.type.faulty_of_error h'.type.faulty_of_error
    exact keeps_pure (Bound.Expr.hasValue_error fault)
  · next meaningful =>
    obtain ⟨ne_error, ne_error'⟩ := not_or.1 meaningful
    split
    · next o found => exact keeps_pure (h.binary h' (BinaryOperator.find?_eq_some found).1)
    · exact keeps_reported (List.forall_mem_cons.2 ⟨⟨h.type.ne_void, ne_error⟩,
        List.forall_mem_singleton.2 ⟨h'.type.ne_void, ne_error'⟩⟩) fun _ => h

/-- A call with values is a call of a function of the language, or something is faulty. -/
theorem keeps_called (identifier closing : Token)
    (h : ∀ argument ∈ arguments, argument.2.HasValue faulty) :
    Keeps faulty (called identifier closing arguments) fun e => e.Contained faulty := by
  have types : ∀ f ∈ Function.builtins, ∀ p ∈ f.parameters, p.type ≠ .void ∧ p.type ≠ .error := by
    decide
  have meaningless (fault : faulty) : Bound.Expr.error.Contained faulty :=
    (Bound.Expr.hasValue_error fault).contained
  refine (keeps_visibleFunction _).bind fun found known => ?_
  cases found with
  | none => exact keeps_reported nofun meaningless
  | some f =>
    dsimp only
    split
    · exact keeps_reported nofun meaningless
    · refine (keeps_argumentsFit h (types f (known f rfl))).bind fun fit unfit => keeps_pure ?_
      cases fit with
      | true =>
        refine Bound.Expr.contained_call (known f rfl) fun e he => ?_
        obtain ⟨argument, hargument, rfl⟩ := List.mem_map.1 he
        exact h argument hargument
      | false => exact meaningless (unfit rfl)

/-- What must have a value has one. -/
theorem keeps_resolveValue {e : Expr} (h : Keeps faulty e.resolve fun b => b.Contained faulty) :
    Keeps faulty e.resolveValue fun b => b.HasValue faulty :=
  h.bind fun _ contained => keeps_asValue contained

mutual

/-- An expression of plain tokens has a value unless it is a call. -/
theorem keeps_resolve (e : Expr) (plain : e.node.Every (Node.Plain faulty)) :
    Keeps faulty e.resolve fun b => b.Contained faulty := by
  cases e with
  | literal token =>
    obtain ⟨-, ⟨literal, -⟩, -⟩ := plain
    have valued : (token.literal?.getD (.int 0)).type ≠ .void := by
      cases denoted : token.literal? with
      | none => decide
      | some value =>
        rw [denoted] at literal
        cases value <;> simp_all [Value.type]
    have type : Ty.Contained faulty (token.literal?.getD (.int 0)).type :=
      ⟨valued, fun error => absurd error (Value.type_ne_error _)⟩
    exact keeps_pure (Bound.Expr.hasValue_of_type rfl type).contained
  | name identifier =>
    obtain ⟨-, ⟨-, present⟩, -⟩ := plain
    rw [Expr.resolve]
    split
    · next missing => exact keeps_pure (Bound.Expr.hasValue_error (present missing)).contained
    · refine (keeps_visibleVariable _).bind fun found known => ?_
      cases found with
      | some v => exact keeps_pure (Bound.Expr.hasValue_of_type rfl (known v rfl)).contained
      | none =>
        have zero : (Bound.Expr.literal (.int 0)).HasValue faulty :=
          Bound.Expr.hasValue_of_type rfl Ty.contained_int
        exact keeps_reported nofun fun _ => zero.contained
  | assignment identifier equals value =>
    obtain ⟨-, -, -, inside, -⟩ := plain
    rw [resolve_assignment]
    refine (keeps_resolveValue (value.keeps_resolve inside)).bind fun bound valued => ?_
    refine (keeps_assignee _ valued.type).bind fun target contained => ?_
    exact (keeps_assigned identifier equals contained valued).weaken fun _ value => value.contained
  | unary operator operand =>
    obtain ⟨-, -, inside, -⟩ := plain
    rw [resolve_unary]
    refine (keeps_resolveValue (operand.keeps_resolve inside)).bind fun bound value => ?_
    exact (keeps_operated operator value).weaken fun _ value => value.contained
  | binary left operator right =>
    obtain ⟨-, inside, -, inside', -⟩ := plain
    rw [resolve_binary]
    refine (keeps_resolveValue (left.keeps_resolve inside)).bind fun boundLeft value => ?_
    refine (keeps_resolveValue (right.keeps_resolve inside')).bind fun boundRight value' => ?_
    exact (keeps_combined operator value value').weaken fun _ value => value.contained
  | grouped opening inner closing =>
    obtain ⟨-, -, inside, -⟩ := plain
    rw [resolve_grouped]
    exact (keeps_resolveValue (inner.keeps_resolve inside)).weaken fun _ value => value.contained
  | call identifier opening arguments closing =>
    obtain ⟨-, -, -, others⟩ := plain
    rw [resolve_call]
    exact (keeps_resolveAll arguments ((Node.allEvery_append _ _).1 others).1).bind fun _ values =>
      keeps_called identifier closing values

/-- The expressions of a row that must have values have values. -/
theorem keeps_resolveAll (es : List Expr) (plain : Node.AllEvery (Node.Plain faulty) (nodes es)) :
    Keeps faulty (Expr.resolveAll es) fun arguments =>
      ∀ argument ∈ arguments, argument.2.HasValue faulty := by
  cases es with
  | nil => exact keeps_pure nofun
  | cons e es =>
    rw [resolveAll_cons]
    refine (keeps_resolveValue (e.keeps_resolve plain.1)).bind fun bound value => ?_
    exact (keeps_resolveAll es plain.2).bind fun rest values =>
      keeps_pure (List.forall_mem_cons.2 ⟨value, values⟩)

end

/-- What must be of a type of values has a value. -/
theorem keeps_resolveAs (e : Expr) (type : Ty) (plain : e.node.Every (Node.Plain faulty))
    (ne_void : type ≠ .void) (ne_error : type ≠ .error) :
    Keeps faulty (e.resolveAs type) fun b => b.HasValue faulty :=
  (keeps_resolveValue (e.keeps_resolve plain)).bind fun _ value =>
    keeps_asType value ne_void ne_error

/-- A condition has a value. -/
theorem keeps_condition (e : Expr) (plain : e.node.Every (Node.Plain faulty)) :
    Keeps faulty (e.resolveAs .bool) fun b => b.HasValue faulty :=
  e.keeps_resolveAs .bool plain (by decide) (by decide)

/-- A bound of a counting loop has a value. -/
theorem keeps_bound (e : Expr) (plain : e.node.Every (Node.Plain faulty)) :
    Keeps faulty (e.resolveAs .int) fun b => b.HasValue faulty :=
  e.keeps_resolveAs .int plain (by decide) (by decide)

end Expr

namespace Stmt

mutual

/-- A statement of plain tokens requires values only where there are some. -/
theorem keeps_resolve (s : Stmt) (plain : s.node.Every (Node.Plain faulty)) :
    Keeps faulty s.resolve fun b => ∀ part ∈ b.parts, part.Contained faulty := by
  cases s with
  | block opening statements closing =>
    obtain ⟨-, -, others⟩ := plain
    have parts := keeps_resolveAll statements ((Node.allEvery_append _ _).1 others).1
    rw [Stmt.resolve]
    refine parts.inScope.bind fun bound contained => keeps_pure ?_
    exact List.forall_mem_cons.2 ⟨Bound.Stmt.contained_of_values nofun nofun, contained⟩
  | declaration keyword identifier equals initializer =>
    obtain ⟨-, -, -, -, inside, -⟩ := plain
    rw [Stmt.resolve]
    refine (Expr.keeps_resolveValue (initializer.keeps_resolve inside)).bind fun bound value => ?_
    refine (keeps_newVariable _ _ _).bind fun v same => ?_
    have type : v.type.Contained faulty := same ▸ value.type
    have whole : ∀ part ∈ (Bound.Stmt.declaration v bound).parts, part.Contained faulty :=
      List.forall_mem_singleton.2 (Bound.Stmt.contained_of_values nofun value)
    dsimp only
    split
    · exact keeps_pure whole
    · refine (keeps_declare type).bind fun declared _ => ?_
      split
      · exact keeps_pure whole
      · exact keeps_reported nofun fun _ => whole
  | ifThen keyword condition consequence =>
    obtain ⟨-, -, test, inside, -⟩ := plain
    rw [Stmt.resolve]
    refine (condition.keeps_condition test).bind fun boundCondition value => ?_
    refine (consequence.keeps_resolve inside).inScope.bind fun bound contained => keeps_pure ?_
    exact List.forall_mem_cons.2 ⟨Bound.Stmt.contained_of_values nofun value, contained⟩
  | ifElse keyword condition consequence elseWord alternative =>
    obtain ⟨-, -, test, inside, -, inside', -⟩ := plain
    rw [Stmt.resolve]
    refine (condition.keeps_condition test).bind fun boundCondition value => ?_
    refine (consequence.keeps_resolve inside).inScope.bind fun bound contained => ?_
    refine (alternative.keeps_resolve inside').inScope.bind fun bound' contained' => keeps_pure ?_
    exact List.forall_mem_cons.2 ⟨Bound.Stmt.contained_of_values nofun value,
      List.forall_mem_append.2 ⟨contained, contained'⟩⟩
  | whileLoop keyword condition body =>
    obtain ⟨-, -, test, inside, -⟩ := plain
    rw [Stmt.resolve]
    refine (condition.keeps_condition test).bind fun boundCondition value => ?_
    refine (body.keeps_resolve inside).inScope.bind fun bound contained => keeps_pure ?_
    exact List.forall_mem_cons.2 ⟨Bound.Stmt.contained_of_values nofun value, contained⟩
  | forLoop keyword identifier equals lower toWord upper body =>
    obtain ⟨-, -, -, -, first, -, last, inside, -⟩ := plain
    have round := body.keeps_resolve inside
    rw [Stmt.resolve]
    refine (lower.keeps_bound first).bind fun boundLower value => ?_
    refine (upper.keeps_bound last).bind fun boundUpper value' => ?_
    refine Keeps.inScope ((keeps_newVariable _ _ _).bind fun v same => ?_)
    have type : v.type.Contained faulty := same ▸ Ty.contained_int
    have whole (bound : Bound.Stmt) (contained : ∀ part ∈ bound.parts, part.Contained faulty) :
        ∀ part ∈ (Bound.Stmt.forLoop v boundLower boundUpper bound).parts,
          part.Contained faulty :=
      List.forall_mem_cons.2 ⟨Bound.Stmt.contained_of_values nofun
        (List.forall_mem_append.2 ⟨value, value'⟩), contained⟩
    dsimp only
    split
    · exact round.bind fun bound contained => keeps_pure (whole bound contained)
    · exact (keeps_declare type).bind fun _ _ => round.bind fun bound contained =>
        keeps_pure (whole bound contained)
  | expression inner =>
    obtain ⟨-, inside, -⟩ := plain
    rw [Stmt.resolve]
    exact (inner.keeps_resolve inside).bind fun bound contained =>
      keeps_pure (List.forall_mem_singleton.2 contained.statement)

/-- The statements of a row require values only where there are some. -/
theorem keeps_resolveAll (ss : List Stmt)
    (plain : Node.AllEvery (Node.Plain faulty) (nodes ss)) :
    Keeps faulty (Stmt.resolveAll ss) fun bounds =>
      ∀ part ∈ Bound.Stmt.partsAll bounds, part.Contained faulty := by
  cases ss with
  | nil => exact keeps_pure nofun
  | cons s ss =>
    rw [Stmt.resolveAll]
    refine (s.keeps_resolve plain.1).bind fun bound contained => ?_
    exact (keeps_resolveAll ss plain.2).bind fun bounds others =>
      keeps_pure (List.forall_mem_append.2 ⟨contained, others⟩)

end

end Stmt

end Syntax

end Scriptlet
