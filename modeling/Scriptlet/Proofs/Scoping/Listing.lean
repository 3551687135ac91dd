import Mathlib.Data.List.Nodup
import Scriptlet.Proofs.Scoping.Lexical

/-!
# What the list of symbols shows

The symbols behind a chain are listed from the outside in: the functions of the language,
then the global variables of every submission, the oldest first. A call means the function
of its name in the list, and a name means the last variable of its name. So everything
that the next submission sees is in the list, once each, and what is in the list besides
is hidden: a later submission of the chain declares its name again.
-/

namespace Scriptlet

open Reporting Resolving Syntax

namespace View

variable {view view' view'' inner : View}

/-- A view has become another by declarations with new identities in its innermost scope. -/
structure Grows (view view' : View) : Prop where
  nextId_le : view.nextId ≤ view'.nextId
  here : ∃ new, view'.here = view.here ++ new ∧
    ∀ d ∈ new, view.nextId ≤ d.id ∧ d.id < view'.nextId

theorem Grows.refl (view : View) : view.Grows view :=
  ⟨Nat.le_refl _, [], (List.append_nil _).symm, nofun⟩

/-- A view may grow twice. -/
theorem Grows.trans (h : view.Grows view') (h' : view'.Grows view'') : view.Grows view'' := by
  obtain ⟨le, new, same, between⟩ := h
  obtain ⟨le', new', same', between'⟩ := h'
  refine ⟨Nat.le_trans le le', new ++ new', by rw [same', same, List.append_assoc], fun d hd => ?_⟩
  rcases List.mem_append.1 hd with hd | hd
  · have bounds := between d hd
    omega
  · have bounds := between' d hd
    omega

theorem grows_declare (view : View) (name : String) : view.Grows (view.declare name) := by
  refine ⟨Nat.le_succ _, _, rfl, fun d hd => ?_⟩
  obtain rfl := List.mem_singleton.1 hd
  exact ⟨Nat.le_refl _, Nat.lt_succ_self _⟩

theorem grows_declareAt (view : View) (identifier : Token) :
    view.Grows (view.declareAt identifier) := by
  rw [declareAt]
  split
  · exact ⟨Nat.le_succ _, [], (List.append_nil _).symm, nofun⟩
  · exact view.grows_declare _

theorem grows_assign (view : View) (name : String) : view.Grows (view.assign name) := by
  rw [assign]
  split
  · exact .refl view
  · exact view.grows_declare name

/-- A scope inside uses identities up and declares nothing outside. -/
theorem Grows.inside {part : View → View} (h : view.enter.Grows (part view.enter)) :
    view.Grows (view.inside part) :=
  ⟨h.nextId_le, [], (List.append_nil _).symm, nofun⟩

end View

namespace Syntax

open View

mutual

/-- Behind an expression the view has grown. -/
theorem Expr.grows_behind (e : Expr) (view : View) : view.Grows (e.behind view) := by
  cases e with
  | literal | name => exact .refl view
  | assignment identifier equals value => exact (value.grows_behind view).trans (grows_assign _ _)
  | unary operator operand => exact operand.grows_behind view
  | binary left operator right => exact (left.grows_behind view).trans (right.grows_behind _)
  | grouped opening inner closing => exact inner.grows_behind view
  | call identifier opening arguments closing => exact Expr.grows_behindAll arguments view

/-- Behind a row of expressions the view has grown. -/
theorem Expr.grows_behindAll (es : List Expr) (view : View) :
    view.Grows (Expr.behindAll es view) := by
  cases es with
  | nil => exact .refl view
  | cons e es => exact (e.grows_behind view).trans (Expr.grows_behindAll es _)

end

mutual

/-- Behind a statement the view has grown. -/
theorem Stmt.grows_behind (s : Stmt) (view : View) : view.Grows (s.behind view) := by
  cases s with
  | block opening statements closing => exact (Stmt.grows_behindAll statements _).inside
  | declaration keyword identifier equals initializer =>
    exact (initializer.grows_behind view).trans (grows_declareAt _ _)
  | ifThen keyword condition consequence =>
    exact (condition.grows_behind view).trans (consequence.grows_behind _).inside
  | ifElse keyword condition consequence elseWord alternative =>
    have first := (condition.grows_behind view).trans (consequence.grows_behind _).inside
    exact first.trans (alternative.grows_behind _).inside
  | whileLoop keyword condition body =>
    exact (condition.grows_behind view).trans (body.grows_behind _).inside
  | forLoop keyword identifier equals lower toWord upper body =>
    have counted := (lower.grows_behind view).trans (upper.grows_behind _)
    have round := (grows_declareAt (upper.behind (lower.behind view)).enter identifier).trans
      (body.grows_behind _)
    exact counted.trans (@Grows.inside _ (fun inner => body.behind (inner.declareAt _)) round)
  | expression inner => exact inner.grows_behind view

/-- Behind a row of statements the view has grown. -/
theorem Stmt.grows_behindAll (ss : List Stmt) (view : View) :
    view.Grows (Stmt.behindAll ss view) := by
  cases ss with
  | nil => exact .refl view
  | cons s ss => exact (s.grows_behind view).trans (Stmt.grows_behindAll ss _)

end

end Syntax

/-- Some call of its name, resolved in a state, is a call of the function. -/
def Function.IsCalledAt (f : Function) (s : Scoping) : Prop :=
  ∃ identifier opening arguments closing bounds, identifier.text = f.name ∧
    ((Expr.call identifier opening arguments closing).resolve.run s).value = .call f bounds

/-- Its name, resolved in a state, means the variable. -/
def Variable.IsMeantAt (v : Variable) (s : Scoping) : Prop :=
  ∀ identifier : Token, identifier.text = v.name → identifier.isMissing = false →
    ((Expr.name identifier).resolve.run s).value = .name v

section

variable {v : Variable} {vars : List Variable} {name : String} {here : Frame} {outer : Rows}

/-- Among variables with different names, the one of a name is found. -/
theorem find?_name_eq_some_iff (distinct : (vars.map Variable.name).Nodup) :
    vars.find? (·.name == name) = some v ↔ v ∈ vars ∧ v.name = name := by
  constructor
  · intro found
    exact ⟨List.mem_of_find?_eq_some found, by simpa using List.find?_some found⟩
  · rintro ⟨mem, rfl⟩
    induction vars with
    | nil => cases mem
    | cons w vars ih =>
      rw [List.map_cons, List.nodup_cons] at distinct
      rcases List.mem_cons.1 mem with rfl | mem
      · exact List.find?_cons_of_pos (by simp)
      · have other : w.name ≠ v.name := fun same => distinct.1 (same ▸ List.mem_map_of_mem mem)
        rw [List.find?_cons_of_neg (by simpa using other), ih distinct.2 mem]

/-- The functions of the language are called by their names, whatever can be seen. -/
theorem Function.isCalledAt_iff {f : Function} {view : View} (shows : view.Shows here outer) :
    f.IsCalledAt (here.scoping outer) ↔ f ∈ Function.builtins := by
  constructor
  · rintro ⟨identifier, opening, arguments, closing, bounds, -, resolved⟩
    have called := callResolved shows identifier opening closing arguments
    rw [CallResolved] at called
    split at called
    next g known =>
      rcases called.1 with isCall | ⟨isError, -⟩
      · obtain ⟨rfl, -⟩ := Bound.Expr.call.inj (resolved.symm.trans isCall)
        exact List.mem_of_find?_eq_some known
      · rw [isError] at resolved
        cases resolved
    next =>
      rw [called.1] at resolved
      cases resolved
  · intro known
    -- A literal of its type stands for each parameter.
    let literal (value : Value) : Expr := .literal ⟨.string, "", some value, default, false⟩
    have fits : ∃ arguments, ∀ s, ((Expr.resolveAll arguments).run s).value.map (·.2.type) =
        f.parameters.map Parameter.type := by
      have listed : f = .print ∨ f = .input ∨ f = .rnd := by simpa [builtins] using known
      rcases listed with rfl | rfl | rfl
      · exact ⟨[literal (.string "")], fun _ => rfl⟩
      · exact ⟨[], fun _ => rfl⟩
      · exact ⟨[literal (.int 0)], fun _ => rfl⟩
    obtain ⟨arguments, fits⟩ := fits
    have found : ∀ f ∈ builtins, builtins.find? (·.name == f.name) = some f := by decide
    have called := callResolved shows ⟨.identifier, f.name, none, default, false⟩ default default
      arguments
    simp only [CallResolved, found f known] at called
    rcases called.1 with isCall | ⟨-, other⟩
    · exact ⟨_, _, _, _, _, rfl, isCall⟩
    · exact absurd (fits _) other

/-- A name means the variable that is looked up. -/
theorem Variable.isMeantAt_iff :
    v.IsMeantAt (here.scoping outer) ↔ (here.rows outer).lookup? v.name = some v := by
  constructor
  · intro meant
    have resolved := meant ⟨.identifier, v.name, none, default, false⟩ rfl rfl
    cases visible : (here.rows outer).lookup? v.name with
    | none => simp [Expr.resolve, visible] at resolved
    | some w =>
      simp only [Expr.resolve, visible, Bool.false_eq_true, if_false, run_bind,
        run_visibleVariable, run_pure] at resolved
      rw [Bound.Expr.name.inj resolved]
  · intro visible identifier named present
    rw [← named] at visible
    simp [Expr.resolve, present, visible]

end

namespace Submission

variable {chain : List Submission} {view : View} {nextId : Nat} {s : Submission} {v : Variable}
  {name : String}

/-- All global variables of a chain, those of the oldest submission first and those of
each submission in the order of their names. -/
def listed (chain : List Submission) : List Variable := chain.reverse.flatMap sortedGlobals

/-- The symbols are the functions of the language and the listed variables. -/
theorem symbols_eq (chain : List Submission) :
    symbols chain = Function.builtins.map .function ++ (listed chain).map .var := by
  rw [symbols, listed, List.map_flatMap]

/-- The variables of one more submission are listed last. -/
theorem listed_cons (s : Submission) (chain : List Submission) :
    listed (s :: chain) = listed chain ++ s.sortedGlobals := by
  simp [listed]

theorem function_mem_symbols {f : Function} :
    .function f ∈ symbols chain ↔ f ∈ Function.builtins := by
  simp [symbols_eq]

theorem var_mem_symbols : .var v ∈ symbols chain ↔ v ∈ listed chain := by
  simp [symbols_eq]

/-- Sorting the variables of a submission leaves out none and repeats none. -/
theorem sortedGlobals_perm (s : Submission) : s.sortedGlobals.Perm s.globals :=
  List.mergeSort_perm _ _

/-! ### Names mean the last variable of the list -/

/-- If the variables of each submission have different names, the variable of a name is
the last one of the list that has it. -/
theorem lookup?_rows (distinct : ∀ vars ∈ rows chain, (vars.map Variable.name).Nodup) :
    (rows chain).lookup? name = (listed chain).reverse.find? (·.name == name) := by
  induction chain with
  | nil => rfl
  | cons s chain ih =>
    obtain ⟨here, outer⟩ := List.forall_mem_cons.1 distinct
    have sorted : (s.sortedGlobals.reverse.map Variable.name).Nodup :=
      (((List.reverse_perm _).trans s.sortedGlobals_perm).map Variable.name).nodup_iff.2 here
    have same : s.sortedGlobals.reverse.find? (·.name == name) =
        s.globals.find? (·.name == name) := by
      refine Option.ext fun v => ?_
      rw [find?_name_eq_some_iff sorted, find?_name_eq_some_iff here, List.mem_reverse,
        s.sortedGlobals_perm.mem_iff]
    rw [listed_cons, List.reverse_append, List.find?_append, ← ih outer, same, rows,
      List.map_cons, Rows.lookup?, List.findSome?_cons]
    cases s.globals.find? (·.name == name) <;> rfl

/-- The last element of a sort in a list stands in front of no other of the sort. -/
theorem find?_reverse_eq_some_iff {α : Type} {p : α → Bool} {xs : List α} {x : α} :
    xs.reverse.find? p = some x ↔
      p x = true ∧ ∃ before behind, xs = before ++ x :: behind ∧ ∀ y ∈ behind, p y = false := by
  rw [List.find?_eq_some_iff_append]
  refine and_congr_right fun _ => ⟨?_, ?_⟩
  · rintro ⟨front, rest, split, others⟩
    refine ⟨rest.reverse, front.reverse, ?_, fun y hy => ?_⟩
    · rw [← List.reverse_reverse xs, split]
      simp
    · simpa using others y (List.mem_reverse.1 hy)
  · rintro ⟨before, behind, rfl, others⟩
    exact ⟨behind.reverse, before.reverse, by simp, fun y hy => by
      simpa using others y (List.mem_reverse.1 hy)⟩

/-- A listed variable has no variable of its name behind it among the symbols exactly if it
has none among the variables. -/
theorem exists_symbols_split :
    (∃ before behind, symbols chain = before ++ .var v :: behind ∧
      ∀ w, .var w ∈ behind → w.name ≠ v.name) ↔
    ∃ before behind, listed chain = before ++ v :: behind ∧ ∀ w ∈ behind, w.name ≠ v.name := by
  rw [symbols_eq]
  constructor
  · rintro ⟨before, behind, split, others⟩
    -- The variable is no function, so the functions all stand in front of it.
    rcases List.append_eq_append_iff.1 split with ⟨between, -, vars⟩ | ⟨functions, all, vars⟩
    · obtain ⟨front, rest, whole, -, last⟩ := List.map_eq_append_iff.1 vars
      obtain ⟨w, rest, rfl, same, rfl⟩ := List.map_eq_cons_iff.1 last
      obtain rfl := Symbol.var.inj same
      exact ⟨front, rest, whole, fun w hw => others w (List.mem_map_of_mem hw)⟩
    · cases functions with
      | nil =>
        obtain ⟨w, rest, whole, same, rfl⟩ := List.map_eq_cons_iff.1 vars.symm
        obtain rfl := Symbol.var.inj same
        exact ⟨[], rest, whole, fun w hw => others w (List.mem_map_of_mem hw)⟩
      | cons first functions =>
        obtain ⟨rfl, -⟩ := List.cons.inj vars
        have isFunction : Symbol.var v ∈ Function.builtins.map Symbol.function := by simp [all]
        simp at isFunction
  · rintro ⟨before, behind, split, others⟩
    refine ⟨Function.builtins.map .function ++ before.map .var, behind.map .var, ?_, ?_⟩
    · simp [split]
    · intro w hw
      obtain ⟨w', hw', same⟩ := List.mem_map.1 hw
      exact Symbol.var.inj same ▸ others w' hw'

/-! ### No symbol is listed twice -/

/-- A row that holds what can be seen has the identities of the declarations. -/
theorem exists_of_holds {vars : List Variable} {scope : List Declaration} (holds : Holds vars scope)
    (hv : v ∈ vars) : ∃ d ∈ scope, d.id = v.id := by
  have same := holds.found v.name
  rw [(find?_name_eq_some_iff holds.distinct).2 ⟨hv, rfl⟩] at same
  obtain ⟨d, found, hid⟩ := Option.map_eq_some_iff.1 same.symm
  exact ⟨d, List.mem_of_find?_eq_some found, hid⟩

/-- The global variables of one more submission have identities that are new. -/
theorem Seen.between (seen : Seen chain view) (above : view.nextId ≤ nextId) (source : Source)
    (hv : v ∈ (Submission.compile chain nextId source).1.globals) :
    nextId ≤ v.id ∧ v.id < (source.script.statement.behind { view with nextId }).nextId := by
  have further := (seen.compile above source).outer
  cases further with
  | cons holds =>
    obtain ⟨d, hd, hid⟩ := exists_of_holds holds hv
    obtain ⟨-, new, same, between⟩ := source.script.statement.grows_behind { view with nextId }
    rw [same, seen.here] at hd
    exact hid ▸ between d hd

/-- Behind every chain no variable is listed twice, and the identities of all of them are
used up. -/
theorem Compiled.nodup_listed (compiled : Compiled chain view) :
    (listed chain).Nodup ∧ ∀ v ∈ listed chain, v.id < view.nextId := by
  induction compiled with
  | nil nextId => exact ⟨List.nodup_nil, nofun⟩
  | @cons chain view nextId compiled above source ih =>
    obtain ⟨distinct, below⟩ := ih
    have between {v : Variable} := compiled.seen.between above source (v := v)
    have perm := (Submission.compile chain nextId source).1.sortedGlobals_perm
    have names := (compiled.seen.compile above source).names_nodup _ List.mem_cons_self
    have grows := (source.script.statement.grows_behind { view with nextId }).nextId_le
    rw [listed_cons]
    refine ⟨List.nodup_append.2 ⟨distinct, perm.nodup_iff.2 (names.of_map _), ?_⟩, ?_⟩
    · rintro v hv w hw rfl
      have old := below v hv
      have new := between (perm.mem_iff.1 hw)
      omega
    · intro v hv
      rcases List.mem_append.1 hv with hv | hv
      · exact Nat.lt_of_lt_of_le (below v hv) (Nat.le_trans above grows)
      · exact (between (perm.mem_iff.1 hv)).2

/-! ### What the next submission sees -/

/-- In front of the next submission, a name means the last variable of the list that has
it. -/
theorem Seen.isMeantAt_iff (seen : Seen chain view) (nextId : Nat) :
    v.IsMeantAt (beginning chain nextId) ↔
      ∃ before behind, listed chain = before ++ v :: behind ∧ ∀ w ∈ behind, w.name ≠ v.name := by
  have looks : ((Frame.fresh nextId).rows (rows chain)).lookup? v.name =
      (listed chain).reverse.find? (·.name == v.name) := lookup?_rows seen.names_nodup
  rw [seen.beginning_eq, Variable.isMeantAt_iff, looks, find?_reverse_eq_some_iff]
  simp

/-- All that is seen is exactly what is listed, as long as no two listed variables have the
same name. -/
theorem Seen.mem_listed_iff (seen : Seen chain view) (nextId : Nat) :
    (∀ v, v ∈ listed chain ↔ v.IsMeantAt (beginning chain nextId)) ↔
      ∀ v w, v ∈ listed chain → w ∈ listed chain → v.name = w.name → v = w := by
  have meant {v : Variable} : v.IsMeantAt (beginning chain nextId) ↔ _ :=
    seen.isMeantAt_iff nextId
  constructor
  · intro exact v w hv hw same
    have hv := (exact v).1 hv
    have hw := (exact w).1 hw
    rw [seen.beginning_eq, Variable.isMeantAt_iff] at hv hw
    rw [← same, hv] at hw
    exact Option.some.inj hw
  · intro unique v
    rw [meant]
    constructor
    · intro hv
      have named : ((listed chain).reverse.find? (·.name == v.name)).isSome = true :=
        List.find?_isSome.2 ⟨v, List.mem_reverse.2 hv, by simp⟩
      obtain ⟨w, found⟩ := Option.isSome_iff_exists.1 named
      obtain ⟨named, before, behind, split, others⟩ := find?_reverse_eq_some_iff.1 found
      have named : w.name = v.name := by simpa using named
      obtain rfl := unique v w hv (by simp [split]) named.symm
      exact ⟨before, behind, split, by simpa using others⟩
    · rintro ⟨before, behind, split, -⟩
      simp [split]

/-- The list of symbols shows what the next submission sees. Behind any chain of
submissions, whatever is wrong with them, a function is listed exactly if calls of its name
mean it, at any place of the next submission. A variable is meant by its name at the
beginning of the next submission exactly if it is the last one of its name in the list; so
what is listed is exactly what is seen if no name is listed for two variables, and else the
variables of the name but the last are listed without being seen. No symbol is listed
twice. -/
theorem symbols_visible (compiled : Compiled chain view) (above : view.nextId ≤ nextId) :
    (∀ f source met, (spot chain view nextId source).Meets met →
      (.function f ∈ symbols chain ↔ f.IsCalledAt met.state)) ∧
    (∀ v : Variable, v.IsMeantAt (beginning chain nextId) ↔ ∃ before behind,
      symbols chain = before ++ .var v :: behind ∧ ∀ w, .var w ∈ behind → w.name ≠ v.name) ∧
    ((∀ v, .var v ∈ symbols chain ↔ v.IsMeantAt (beginning chain nextId)) ↔
      ∀ v w, .var v ∈ symbols chain → .var w ∈ symbols chain → v.name = w.name → v = w) ∧
    (symbols chain).Nodup := by
  have seen := compiled.seen
  refine ⟨fun f source met meets => ?_, fun v => ?_, ?_, ?_⟩
  · have sound : (spot chain view nextId source).Sound [] :=
      ⟨⟨_, _, seen.beginning_eq nextId, seen.shows nextId⟩, seen.distinct.raise above⟩
    obtain ⟨here, outer, hstate, shows⟩ := (meets.sound sound).shows
    rw [hstate, Function.isCalledAt_iff shows, function_mem_symbols]
  · rw [seen.isMeantAt_iff, exists_symbols_split]
  · simp only [var_mem_symbols]
    exact seen.mem_listed_iff nextId
  · rw [symbols_eq, List.nodup_append]
    have functions : (Function.builtins.map Symbol.function).Nodup := by decide
    have vars := compiled.nodup_listed.1.map fun _ _ => Symbol.var.inj
    refine ⟨functions, vars, ?_⟩
    simp

/-- A submission that declares a name, and one that declares it again. -/
def redeclaringSample : List Submission :=
  let first := (compile [] 0 (.ofText "var a = 10")).1
  [(compile [first] 1 (.ofText "var a = true")).1, first]

/-- Both variables are listed, and the name means the second one only. -/
theorem symbols_visible_redeclaringSample : ∃ view, Compiled redeclaringSample view ∧
    symbols redeclaringSample = Function.builtins.map .function ++
      [.var ⟨0, "a", .int, false⟩, .var ⟨1, "a", .bool, false⟩] ∧
    ¬ (⟨0, "a", .int, false⟩ : Variable).IsMeantAt (beginning redeclaringSample 2) ∧
    (⟨1, "a", .bool, false⟩ : Variable).IsMeantAt (beginning redeclaringSample 2) := by
  have chain : Compiled redeclaringSample _ :=
    .cons (.cons (.nil 0) (Nat.le_refl 0) (.ofText "var a = 10")) (Nat.le_refl 1)
      (.ofText "var a = true")
  have listing : symbols redeclaringSample = Function.builtins.map .function ++
      [.var ⟨0, "a", .int, false⟩, .var ⟨1, "a", .bool, false⟩] := by decide +kernel
  have visible := symbols_visible chain (Nat.le_refl 2)
  have second : (⟨1, "a", .bool, false⟩ : Variable).IsMeantAt (beginning redeclaringSample 2) :=
    (visible.2.1 _).2 ⟨_, [], by rw [listing]; exact List.append_cons _ _ _, nofun⟩
  refine ⟨_, chain, listing, fun first => ?_, second⟩
  have both := (first ⟨.identifier, "a", none, default, false⟩ rfl rfl).symm.trans
    (second ⟨.identifier, "a", none, default, false⟩ rfl rfl)
  cases both

end Submission

end Scriptlet
