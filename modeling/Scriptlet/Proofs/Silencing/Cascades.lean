import Scriptlet.Proofs.Silencing.StandIns

/-!
# Faults are reported once

An expression around a faulty part is resolved with the one report of that part, if the
part could be mended and what stands in for it is silent: it has no type or the type of
the mended part, and what it declares is seen alike. Where one of the two fails, a fault
may cause further reports.
-/

namespace Scriptlet

namespace Syntax

open Reporting Resolving

/-- What may stand directly around a part of an expression. -/
inductive Layer where
  | assignment (identifier equals : Token)
  | unary (operator : Token)
  /-- The part is the left operand. -/
  | leftOf (operator : Token) (right : Expr)
  /-- The part is the right operand. -/
  | rightOf (left : Expr) (operator : Token)
  | grouped (opening closing : Token)
  /-- The part is an argument, between others. -/
  | argument (identifier opening : Token) (front rest : List Expr) (closing : Token)

namespace Layer

/-- The expression that is made of the layer around a part. -/
def around : Layer → Expr → Expr
  | assignment identifier equals, part => .assignment identifier equals part
  | unary operator, part => .unary operator part
  | leftOf operator right, part => .binary part operator right
  | rightOf left operator, part => .binary left operator part
  | grouped opening closing, part => .grouped opening part closing
  | argument identifier opening front rest closing, part =>
    .call identifier opening (front ++ part :: rest) closing

/-- The state in which the part is resolved: behind all that stands in front of it. -/
def entry : Layer → Scoping → Scoping
  | rightOf left _, σ => (left.resolveValue.run σ).state
  | argument _ _ front _ _, σ => ((Expr.resolveAll front).run σ).state
  | _, σ => σ

/-- The names that are looked up behind the part. -/
def namesBehind : Layer → List String
  | assignment identifier _ => [identifier.text]
  | leftOf _ right => right.names
  | argument _ _ _ rest _ => Expr.namesAll rest
  | _ => []

end Layer

/-- All that stands around a part of an expression, the outermost layer first. -/
abbrev Surroundings := List Layer

namespace Surroundings

/-- The expression that is made of the surroundings around a part. -/
def around (layers : Surroundings) (part : Expr) : Expr := layers.foldr Layer.around part

/-- The state in which the part is resolved. -/
def entry (layers : Surroundings) (σ : Scoping) : Scoping :=
  layers.foldl (fun σ layer => layer.entry σ) σ

/-- The names that are looked up behind the part. -/
def namesBehind (layers : Surroundings) : List String := layers.flatMap Layer.namesBehind

end Surroundings

end Syntax

/-- What is seen from a state of a scope stands in the rows of the scope. -/
theorem Frame.lookupVariable?_scoping (here : Frame) (outer : Rows) (name : String) :
    (here.scoping outer).tree.lookupVariable? (here.scoping outer).current name =
      (here.rows outer).lookup? name := Rows.lookupVariable?_tree (here.rows outer) name

namespace Resolving

open Reporting

/-- From one state, where the second computation reports nothing, the first one reports one
problem. Their results are related and the names are seen alike. -/
def ReportsOnce {α β : Type} (names : List String) (outer : Rows) (V : α → β → Prop)
    (d : Diagnostic) (σ : Scoping) (m : Resolving α) (m' : Resolving β) : Prop :=
  (m'.run σ).diagnostics = [] → (m.run σ).diagnostics = [d] ∧ V (m.run σ).value (m'.run σ).value ∧
    Resembles names outer (m.run σ).state (m'.run σ).state

variable {α β γ δ : Type} {names : List String} {outer : Rows} {V : α → β → Prop}
  {W : γ → δ → Prop} {d : Diagnostic} {σ : Scoping}

/-- The same may be done in front of both. -/
theorem ReportsOnce.behind {m : Resolving α} {f : α → Resolving γ} {f' : α → Resolving δ}
    (second : ReportsOnce names outer W d (m.run σ).state (f (m.run σ).value)
      (f' (m.run σ).value)) : ReportsOnce names outer W d σ (m >>= f) (m >>= f') := by
  intro clean
  rw [run_bind, List.append_eq_nil_iff] at clean
  rw [run_bind, run_bind, clean.1]
  exact second clean.2

/-- Behind both, what echoes adds no report. -/
theorem ReportsOnce.bind {m : Resolving α} {m' : Resolving β} {f : α → Resolving γ}
    {f' : β → Resolving δ} (first : ReportsOnce names outer V d σ m m')
    (second : ∀ a b, V a b → Echoes names outer W (f a) (f' b)) :
    ReportsOnce names outer W d σ (m >>= f) (m' >>= f') := by
  intro clean
  rw [run_bind, List.append_eq_nil_iff] at clean
  obtain ⟨once, related, alike⟩ := first clean.1
  obtain ⟨silent, result, alike'⟩ := second _ _ related _ _ alike clean.2
  rw [run_bind, run_bind, once, silent]
  exact ⟨rfl, result, alike'⟩

end Resolving

namespace Syntax

open Reporting Resolving

variable {names : List String} {outer : Rows} {d : Diagnostic} {σ : Scoping} {s t : Expr}

/-- Resolving an expression that must have a value stays in the scope. -/
theorem Expr.stays_resolveValue (e : Expr) : Stays e.resolveValue := by
  have places : e.node.Every fun _ => True := (Node.every_iff 0 _).2 fun _ _ => trivial
  exact Expr.closed_resolveValue closed_stays (e.closed_resolve closed_stays places) trivial

/-- Resolving a row of expressions stays in the scope. -/
theorem Expr.stays_resolveAll (es : List Expr) : Stays (Expr.resolveAll es) := by
  induction es with
  | nil => exact closed_stays.pure _
  | cons e es ih =>
    rw [Expr.resolveAll_cons]
    exact closed_stays.bind e.stays_resolveValue fun _ =>
      closed_stays.bind ih fun _ => closed_stays.pure _

/-- A part is resolved in the scope of the whole. -/
theorem Surroundings.exists_entry (layers : Surroundings) (here : Frame) (outer : Rows) :
    ∃ there : Frame, layers.entry (here.scoping outer) = there.scoping outer := by
  induction layers generalizing here with
  | nil => exact ⟨here, rfl⟩
  | cons layer layers ih =>
    have first : ∃ between : Frame, layer.entry (here.scoping outer) = between.scoping outer := by
      cases layer with
      | rightOf left operator => exact left.stays_resolveValue here outer
      | argument identifier opening front rest closing =>
        exact Expr.stays_resolveAll front here outer
      | assignment | unary | leftOf | grouped => exact ⟨here, rfl⟩
    obtain ⟨between, first⟩ := first
    rw [entry, List.foldl_cons, first]
    exact ih between

/-- A row of expressions is resolved from left to right. -/
theorem Expr.resolveAll_append (front rest : List Expr) :
    Expr.resolveAll (front ++ rest) = (do
      let bounds ← Expr.resolveAll front
      let bounds' ← Expr.resolveAll rest
      return bounds ++ bounds') := by
  induction front with
  | nil => simp [Expr.resolveAll]
  | cons e es ih => simp [Expr.resolveAll_cons, ih]

/-- A layer adds no report to the one of the part. -/
theorem Layer.reportsOnce (layer : Layer) (known : ∀ name ∈ layer.namesBehind, name ∈ names)
    (part : ReportsOnce names outer Bound.Expr.StandsFor d (layer.entry σ) s.resolveValue
      t.resolveValue) :
    ReportsOnce names outer Bound.Expr.StandsFor d σ (layer.around s).resolve
      (layer.around t).resolve := by
  cases layer with
  | assignment identifier equals =>
    rw [around, around, Expr.resolve_assignment, Expr.resolve_assignment]
    refine part.bind fun _ _ h => ?_
    refine .bind (Expr.echoes_assignee (known _ List.mem_cons_self) h) fun _ _ stands => ?_
    exact Expr.echoes_assigned stands h
  | unary operator =>
    rw [around, around, Expr.resolve_unary, Expr.resolve_unary]
    exact part.bind fun _ _ => Expr.echoes_operated operator
  | leftOf operator right =>
    rw [around, around, Expr.resolve_binary, Expr.resolve_binary]
    refine part.bind fun _ _ h => ?_
    refine .bind (right.echoes_resolveValue known) fun _ _ h' => ?_
    exact Expr.echoes_combined operator h h'
  | rightOf left operator =>
    rw [around, around, Expr.resolve_binary, Expr.resolve_binary]
    exact .behind (part.bind fun _ _ => Expr.echoes_combined operator (.inr rfl))
  | grouped opening closing =>
    rw [around, around, Expr.resolve_grouped, Expr.resolve_grouped]
    exact part
  | argument identifier opening front rest closing =>
    have inside : ReportsOnce names outer ArgumentsStandFor d
        ((Expr.resolveAll front).run σ).state (Expr.resolveAll (s :: rest))
        (Expr.resolveAll (t :: rest)) := by
      rw [Expr.resolveAll_cons, Expr.resolveAll_cons]
      refine part.bind fun _ _ h => ?_
      exact .bind (Expr.echoes_resolveAll rest known) fun _ _ others => .pure (.cons h others)
    rw [around, around, Expr.resolve_call, Expr.resolve_call, Expr.resolveAll_append,
      Expr.resolveAll_append]
    refine .bind (.behind (inside.bind fun _ _ others => .pure ?_)) fun _ _ => Expr.echoes_called
    exact List.rel_append (List.forall₂_same.2 fun _ _ => .inr rfl) others

/-- All that stands around a part adds no report to the one of the part. -/
theorem Surroundings.reportsOnce (layers : Surroundings)
    (known : ∀ name ∈ layers.namesBehind, name ∈ names)
    (part : ReportsOnce names outer Bound.Expr.StandsFor d (layers.entry σ) s.resolveValue
      t.resolveValue) :
    ReportsOnce names outer Bound.Expr.StandsFor d σ (layers.around s).resolveValue
      (layers.around t).resolveValue := by
  induction layers generalizing σ with
  | nil => exact part
  | cons layer layers ih =>
    rw [namesBehind, List.flatMap_cons, List.forall_mem_append] at known
    have inside := ih known.2 part
    exact (layer.reportsOnce known.1 inside).bind fun _ _ => echoes_asValue

/-- Faults do not cascade. A part of an expression reports one problem where it stands. The
expression would be resolved without a report if another part stood there. What stands in
for the faulty part has no type or the type of the other part, and it leaves behind each
name that is looked up behind it as the other part does, or without a type. Then the whole
expression reports that one problem, where it must have a value as well as, unless it is
the part itself, where it need not. -/
theorem fault_reported_once {here : Frame} {outer : Rows} {layers : Surroundings}
    {standIn bound : Bound.Expr} {behind behind' : Scoping} {reports : List Diagnostic}
    (faulty : s.resolveValue.run (layers.entry (here.scoping outer)) = ⟨standIn, behind, [d]⟩)
    (mended : t.resolveValue.run (layers.entry (here.scoping outer)) = ⟨bound, behind', reports⟩)
    (type : standIn.StandsFor bound)
    (names : ∀ name ∈ layers.namesBehind, Option.Rel Variable.StandsFor
      (behind.tree.lookupVariable? behind.current name)
      (behind'.tree.lookupVariable? behind'.current name)) :
    (((layers.around t).resolveValue.run (here.scoping outer)).diagnostics = [] →
      ((layers.around s).resolveValue.run (here.scoping outer)).diagnostics = [d]) ∧
    (layers ≠ [] → ((layers.around t).resolve.run (here.scoping outer)).diagnostics = [] →
      ((layers.around s).resolve.run (here.scoping outer)).diagnostics = [d]) := by
  obtain ⟨place, hplace⟩ := layers.exists_entry here outer
  obtain ⟨there, hthere⟩ := s.stays_resolveValue place outer
  obtain ⟨there', hthere'⟩ := t.stays_resolveValue place outer
  rw [← hplace, faulty] at hthere
  rw [← hplace, mended] at hthere'
  have part : ReportsOnce layers.namesBehind outer Bound.Expr.StandsFor d
      (layers.entry (here.scoping outer)) s.resolveValue t.resolveValue := by
    intro _
    rw [faulty, mended]
    refine ⟨rfl, type, there, there', hthere, hthere', fun name known => ?_⟩
    have seen := names name known
    obtain rfl : behind = there.scoping outer := hthere
    obtain rfl : behind' = there'.scoping outer := hthere'
    rwa [Frame.lookupVariable?_scoping, Frame.lookupVariable?_scoping] at seen
  refine ⟨fun clean => (layers.reportsOnce (fun _ => id) part clean).1, fun nonempty clean => ?_⟩
  cases layers with
  | nil => exact absurd rfl nonempty
  | cons layer layers =>
    have known := List.forall_mem_append.1 fun name
      (h : name ∈ layer.namesBehind ++ Surroundings.namesBehind layers) => h
    have inside := Surroundings.reportsOnce layers known.2 part
    exact (layer.reportsOnce known.1 inside clean).1

/-- A token that begins at a place. -/
def tokenAt (start : Nat) (kind : Kind) (text : String) (literal? : Option Value) : Token :=
  ⟨kind, text, literal?, ⟨start, start + text.utf8ByteSize⟩, false⟩

/-- A name that begins at a place. -/
def nameAt (start : Nat) (name : String) : Expr := .name (tokenAt start .identifier name none)

/-- The number one at a place. -/
def oneAt (start : Nat) : Expr := .literal (tokenAt start .number "1" (some (.int 1)))

/-- An assignment in parentheses to a name of one letter, of a value that is as short. -/
def assignedAt (start : Nat) (name : String) (value : Expr) : Expr :=
  .grouped (tokenAt start .openParen "(" none)
    (.assignment (tokenAt (start + 1) .identifier name none)
      (tokenAt (start + 3) .assignment "=" none) value)
    (tokenAt (start + 6) .closeParen ")" none)

/-- A part that reports one problem where nothing is declared is the only one to do so,
if the expression would be resolved without a report with another part there. -/
def ReportsAlone (layers : Surroundings) (s t : Expr) : Prop :=
  ∀ d, (s.resolveValue.run ((Frame.fresh 0).scoping [])).diagnostics = [d] →
    ((layers.around t).resolveValue.run ((Frame.fresh 0).scoping [])).diagnostics = [] →
    ((layers.around s).resolveValue.run ((Frame.fresh 0).scoping [])).diagnostics = [d]

/-- A comparison with a truth value. -/
def comparing : Surroundings :=
  [.leftOf (tokenAt 2 .equals "==" none)
    (.literal (tokenAt 5 .trueWord "true" (some (.bool true))))]

/-- A sum behind an assignment. -/
def addingBehind : Surroundings :=
  [.rightOf (assignedAt 0 "a" (oneAt 5)) (tokenAt 8 .plus "+" none)]

/-- A sum in front of a name. -/
def addingBefore : Surroundings := [.leftOf (tokenAt 2 .plus "+" none) (nameAt 4 "a")]

/-- What stands in for an unknown name is an integer, which is compared with no truth value.
A name that is unknown alone may be known behind an assignment, and a name may be known
only behind what mends a part. -/
theorem parts_not_reportsAlone :
    ((Source.ofText "x == true").script.statement =
        .expression (comparing.around (nameAt 0 "x")) ∧
      ¬ReportsAlone comparing (nameAt 0 "x")
        (.literal (tokenAt 0 .falseWord "false" (some (.bool false))))) ∧
    ((Source.ofText "(a = 1) + a").script.statement =
        .expression (addingBehind.around (nameAt 10 "a")) ∧
      ¬ReportsAlone addingBehind (nameAt 10 "a") (oneAt 10)) ∧
    ((Source.ofText "x + a").script.statement =
        .expression (addingBefore.around (nameAt 0 "x")) ∧
      ¬ReportsAlone addingBefore (nameAt 0 "x") (assignedAt 0 "a" (oneAt 5))) := by
  refine ⟨⟨rfl, fun once => ?_⟩, ⟨rfl, fun once => ?_⟩, ⟨rfl, fun once => ?_⟩⟩
  · cases once _ rfl rfl
  · cases once _ rfl rfl
  · cases once _ rfl rfl

/-- A call with a product as its argument, whose right operand is a name. -/
def callingSample : Surroundings :=
  [.argument (tokenAt 0 .identifier "rnd" none) (tokenAt 3 .openParen "(" none) [] []
      (tokenAt 15 .closeParen ")" none),
   .leftOf (tokenAt 12 .star "*" none) (nameAt 14 "a")]

/-- The name that the argument declares. -/
def declaredSample : Variable := ⟨0, "a", .int, false⟩

/-- An assignment of an unknown name declares the name that the call reads, as it would
with a known value, and the unknown name is all that is reported. -/
theorem fault_reported_once_callingSample :
    (Source.ofText "rnd((a = x) * a)").script.statement =
        .expression (callingSample.around (assignedAt 4 "a" (nameAt 9 "x"))) ∧
      ((callingSample.around (assignedAt 4 "a" (nameAt 9 "x"))).resolveValue.run
        ((Frame.fresh 0).scoping [])).diagnostics = [⟨.undefinedName "x", ⟨9, 10⟩⟩] := by
  have faulty : (assignedAt 4 "a" (nameAt 9 "x")).resolveValue.run
      (callingSample.entry ((Frame.fresh 0).scoping [])) =
      ⟨.assignment declaredSample (.literal (.int 0)), Frame.scoping ⟨[declaredSample], 1⟩ [],
        [⟨.undefinedName "x", ⟨9, 10⟩⟩]⟩ := rfl
  have mended : (assignedAt 4 "a" (oneAt 9)).resolveValue.run
      (callingSample.entry ((Frame.fresh 0).scoping [])) =
      ⟨.assignment declaredSample (.literal (.int 1)), Frame.scoping ⟨[declaredSample], 1⟩ [],
        []⟩ := rfl
  have alike : ∀ name ∈ ["a"], Option.Rel Variable.StandsFor
      ((Rows.tree [[declaredSample]]).lookupVariable? 1 name)
      ((Rows.tree [[declaredSample]]).lookupVariable? 1 name) :=
    List.forall_mem_singleton.2 (.some (a := declaredSample) (b := declaredSample) ⟨rfl, .inr rfl⟩)
  exact ⟨rfl, (fault_reported_once faulty mended (.inr rfl) alike).1 rfl⟩

end Syntax

end Scriptlet
