import Scriptlet.Proofs.Parsing.Complete
import Scriptlet.Proofs.Resolving.Typed

/-!
# Resolving follows the rules

A tree without missing tokens is resolved without a report exactly if the rules
give it a meaning, and then resolving finds that meaning.
-/

namespace Scriptlet

namespace Resolving

open Reporting

variable {s : Scoping} {span : Span} {e : Bound.Expr} {type : Ty}

/-- An expression with a value passes where a value is required. -/
theorem run_asValue (h : e.type ≠ .void) : (asValue span e).run s = ⟨e, s, []⟩ := by
  rw [asValue, if_neg h, run_pure]

/-- An expression passes where its type is required. -/
theorem run_asType (h : e.type = type) : (asType type span e).run s = ⟨e, s, []⟩ := by
  rw [asType, if_neg (fun hne => hne.2 h), run_pure]

/-- Arguments of the types of the parameters fit. -/
theorem run_argumentsFit {arguments : List (Span × Bound.Expr)} {parameters : List Parameter}
    (h : arguments.map (·.2.type) = parameters.map Parameter.type) :
    (argumentsFit arguments parameters).run s = ⟨true, s, []⟩ := by
  induction arguments generalizing parameters with
  | nil => rw [argumentsFit.eq_def, run_pure]
  | cons argument arguments ih =>
    cases parameters with
    | nil => cases h
    | cons parameter parameters =>
      rw [List.map_cons, List.map_cons, List.cons.injEq] at h
      simp [argumentsFit, h.1, ih h.2]

/-- Without a report, only what has a value passes where a value is required. -/
theorem clean_asValue (h : ((asValue span e).run s).diagnostics = []) : e.type ≠ .void := by
  intro hvoid
  simp [asValue, hvoid] at h

/-- Without a report, only what has the required type or no meaning passes. -/
theorem clean_asType (h : ((asType type span e).run s).diagnostics = []) :
    e.type = .error ∨ e.type = type := by
  by_cases hne : e.type ≠ .error ∧ e.type ≠ type
  · simp [asType, hne] at h
  · by_cases herror : e.type = .error
    · exact .inl herror
    · exact .inr (Classical.byContradiction fun htype => hne ⟨herror, htype⟩)

/-- Without a report, meaningful arguments have the types of the parameters. -/
theorem clean_argumentsFit {arguments : List (Span × Bound.Expr)} {parameters : List Parameter}
    (hlength : arguments.length = parameters.length)
    (meaningful : ∀ argument ∈ arguments, argument.2.type ≠ .error)
    (h : ((argumentsFit arguments parameters).run s).diagnostics = []) :
    arguments.map (·.2.type) = parameters.map Parameter.type := by
  induction arguments generalizing parameters s with
  | nil =>
    cases parameters with
    | nil => rfl
    | cons parameter parameters => cases hlength
  | cons argument arguments ih =>
    cases parameters with
    | nil => cases hlength
    | cons parameter parameters =>
      have hmeaning := meaningful argument List.mem_cons_self
      by_cases hfits : argument.2.type = parameter.type
      · simp only [argumentsFit, hfits, ne_eq, not_true_eq_false, and_false, if_false, run_bind,
          run_pure, List.append_nil] at h
        rw [List.map_cons, List.map_cons, hfits,
          ih (Nat.succ.inj hlength) (fun a ha => meaningful a (List.mem_cons_of_mem _ ha)) h]
      · simp [argumentsFit, hmeaning, hfits] at h

end Resolving

namespace Syntax

open Scriptlet.Frame Reporting Resolving

mutual

/-- An expression that means something is resolved to that, without a report. -/
theorem Expr.Elaborates.run {outer : Rows} {here there : Frame} {e : Expr} {bound : Bound.Expr}
    (h : e.Elaborates outer here bound there) :
    e.resolve.run (here.scoping outer) = ⟨bound, there.scoping outer, []⟩ := by
  cases h with
  | literal token => rw [Expr.resolve, run_pure]
  | name present visible => simp [Expr.resolve, present, visible]
  | assignKnown part valued visible writable fits =>
    simp [Expr.resolve, part.run, run_asValue valued, Expr.resolve.assignee, visible, writable,
      fits]
  | @assignNew _ there identifier _ _ bound part valued invisible =>
    have free := Rows.find?_of_lookup?_eq_none invisible
    have writable : (there.next identifier.text bound.type false).isReadOnly = false := rfl
    have fits : (there.next identifier.text bound.type false).type = bound.type := rfl
    simp [Expr.resolve, part.run, run_asValue valued, Expr.resolve.assignee, invisible,
      run_declare_next _ _ _ _ _ free, writable, fits]
  | unary part row =>
    have fits := UnaryOperator.find?_eq_some row
    have rows : ∀ o ∈ UnaryOperator.table, o.operand ≠ .error ∧ o.operand ≠ .void := by decide
    have htype := rows _ fits.1
    rw [fits.2.2] at htype
    simp [Expr.resolve, part.run, run_asValue htype.2, htype.1, row]
  | binary part part' row =>
    have fits := BinaryOperator.find?_eq_some row
    have rows : ∀ o ∈ BinaryOperator.table, (o.left ≠ .error ∧ o.left ≠ .void) ∧
      o.right ≠ .error ∧ o.right ≠ .void := by decide
    have htypes := rows _ fits.1
    rw [fits.2.2.1, fits.2.2.2] at htypes
    obtain ⟨hleft, hright⟩ := htypes
    simp [Expr.resolve, part.run, part'.run, run_asValue hleft.2, run_asValue hright.2, hleft.1,
      hright.1, row]
  | grouped part valued => simp [Expr.resolve, part.run, run_asValue valued]
  | call parts known fit =>
    obtain ⟨pairs, hrun, hpairs⟩ := parts.run
    have hlength := congrArg List.length fit
    rw [← hpairs, List.map_map] at fit
    rw [← hpairs] at hlength
    simp only [List.length_map] at hlength
    simp [Expr.resolve, hrun, known, hlength, run_argumentsFit fit, hpairs]

/-- The expressions of a row that have values are resolved to them, without a
report. -/
theorem Expr.ElaborateAll.run {outer : Rows} {here there : Frame} {es : List Expr}
    {bounds : List Bound.Expr} (h : Expr.ElaborateAll outer here es bounds there) :
    ∃ pairs, (Expr.resolveAll es).run (here.scoping outer) = ⟨pairs, there.scoping outer, []⟩ ∧
      pairs.map Prod.snd = bounds := by
  cases h with
  | nil => exact ⟨[], rfl, rfl⟩
  | @cons _ _ _ e es bound _ part valued parts =>
    obtain ⟨pairs, hrun, hpairs⟩ := parts.run
    refine ⟨(e.span, bound) :: pairs, ?_, ?_⟩
    · simp [Expr.resolveAll, part.run, run_asValue valued, hrun]
    · rw [List.map_cons, hpairs]

end

/-- An expression of a type is resolved where that type is required. -/
theorem Expr.Elaborates.run_resolveAs {outer : Rows} {here there : Frame} {e : Expr}
    {bound : Bound.Expr} {type : Ty} (h : e.Elaborates outer here bound there)
    (htype : bound.type = type) (valued : type ≠ .void) :
    (e.resolveAs type).run (here.scoping outer) = ⟨bound, there.scoping outer, []⟩ := by
  simp [Expr.resolveAs, Expr.resolveValue, h.run, run_asValue (htype ▸ valued), run_asType htype]

mutual

/-- A statement that means something is resolved to that, without a report. -/
theorem Stmt.Elaborates.run {outer : Rows} {here there : Frame} {s : Stmt} {bound : Bound.Stmt}
    (h : s.Elaborates outer here bound there) :
    s.resolve.run (here.scoping outer) = ⟨bound, there.scoping outer, []⟩ := by
  cases h with
  | block parts => simp [Stmt.resolve, run_inScope _ _ parts.run]
  | declaration part valued present free =>
    simp [Stmt.resolve, Expr.resolveValue, part.run, run_asValue valued, present,
      run_declare_next _ _ _ _ _ free]
  | ifThen test truth part =>
    simp [Stmt.resolve, test.run_resolveAs truth, run_inScope _ _ part.run]
  | @ifElse _ _ between inner _ _ _ _ _ _ _ _ _ test truth part part' =>
    have second := run_inScope (between.behind inner) outer part'.run
    simp only [Stmt.resolve, bind_pure_comp, run_bind, run_map, List.append_nil,
      test.run_resolveAs truth nofun, run_inScope _ _ part.run, second]
    rfl
  | whileLoop test truth part =>
    simp [Stmt.resolve, test.run_resolveAs truth, run_inScope _ _ part.run]
  | @forLoop _ _ between between' inner _ identifier _ _ _ _ body boundLower boundUpper boundBody
      first count last count' present part =>
    have inside : (do
          let v ← newVariable identifier.text .int true
          let _ ← Resolving.declare v
          Bound.Stmt.forLoop v boundLower boundUpper <$> body.resolve).run
          ((Frame.fresh between'.nextId).scoping (between'.rows outer)) =
        ⟨.forLoop (between'.next identifier.text .int true) boundLower boundUpper boundBody,
          inner.scoping (between'.rows outer), []⟩ := by
      have free : (Frame.fresh between'.nextId).vars.find? (·.name == identifier.text) = none := rfl
      simp only [run_bind, run_newVariable, run_declare_next _ _ _ _ _ free, run_map, part.run,
        List.append_nil]
      rfl
    simp [Stmt.resolve, first.run_resolveAs count, last.run_resolveAs count', present,
      run_inScope _ _ inside]
  | expression part => simp [Stmt.resolve, part.run]

/-- The statements of a row that mean something are resolved to that, without a
report. -/
theorem Stmt.ElaborateAll.run {outer : Rows} {here there : Frame} {ss : List Stmt}
    {bounds : List Bound.Stmt} (h : Stmt.ElaborateAll outer here ss bounds there) :
    (Stmt.resolveAll ss).run (here.scoping outer) = ⟨bounds, there.scoping outer, []⟩ := by
  cases h with
  | nil => rfl
  | cons part parts => simp [Stmt.resolveAll, part.run, parts.run]

end

mutual

/-- A complete expression that is resolved without a report means something. -/
theorem Expr.exists_elaborates {outer : Rows} {here : Frame} (e : Expr)
    (complete : e.node.Complete) (hr : (here.rows outer).Meaningful)
    (clean : (e.resolve.run (here.scoping outer)).diagnostics = []) :
    ∃ bound there, e.Elaborates outer here bound there := by
  cases e with
  | literal token => exact ⟨_, _, .literal token⟩
  | name identifier =>
    have present : identifier.isMissing = false := by simpa [Expr.node] using complete
    cases visible : (here.rows outer).lookup? identifier.text with
    | none => simp [Expr.resolve, present, visible] at clean
    | some v => exact ⟨_, _, .name present visible⟩
  | assignment identifier equals value =>
    have hcomplete : value.node.Complete := by
      simp only [Expr.node, Node.complete_branch, Node.allComplete_cons] at complete
      exact complete.2.2.1
    simp only [Expr.resolve, run_bind, List.append_eq_nil_iff] at clean
    obtain ⟨hvalue, hvalued, clean⟩ := clean
    obtain ⟨bound, there, part⟩ := value.exists_elaborates hcomplete hr hvalue
    rw [part.run] at hvalued clean
    have valued := clean_asValue hvalued
    have meaningful := (part.wellTyped hr).1.type_ne_error
    cases visible : (there.rows outer).lookup? identifier.text with
    | none => exact ⟨_, _, .assignNew part valued visible⟩
    | some v =>
      have hv := (part.wellTyped hr).2
      obtain ⟨⟨vars, hvars, hmem⟩, -⟩ := Rows.mem_of_lookup? visible
      simp only [run_asValue valued, Expr.resolve.assignee, run_bind, run_visibleVariable, visible,
        run_pure, List.nil_append] at clean
      replace clean := clean.2
      have writable : v.isReadOnly = false := by
        cases hreadOnly : v.isReadOnly with
        | false => rfl
        | true => simp [hreadOnly] at clean
      have fits : bound.type = v.type := by
        apply Classical.byContradiction
        intro hne
        simp [writable, meaningful, hv vars hvars v hmem, hne] at clean
      exact ⟨_, _, .assignKnown part valued visible writable fits⟩
  | unary operator operand =>
    have hcomplete : operand.node.Complete := by
      simp only [Expr.node, Node.complete_branch, Node.allComplete_cons] at complete
      exact complete.2.1
    simp only [Expr.resolve, run_bind, List.append_eq_nil_iff] at clean
    obtain ⟨hoperand, hvalued, clean⟩ := clean
    obtain ⟨bound, there, part⟩ := operand.exists_elaborates hcomplete hr hoperand
    rw [part.run] at hvalued clean
    have valued := clean_asValue hvalued
    have meaningful := (part.wellTyped hr).1.type_ne_error
    cases row : UnaryOperator.find? operator.kind bound.type with
    | none => simp [run_asValue valued, meaningful, row] at clean
    | some o => exact ⟨_, _, .unary part row⟩
  | binary left operator right =>
    simp only [Expr.node, Node.complete_branch, Node.allComplete_cons] at complete
    simp only [Expr.resolve, run_bind, List.append_eq_nil_iff] at clean
    obtain ⟨hleft, hvalued, hright, hvalued', clean⟩ := clean
    obtain ⟨boundLeft, between, part⟩ := left.exists_elaborates complete.1 hr hleft
    rw [part.run] at hvalued hright hvalued' clean
    have valued := clean_asValue hvalued
    rw [run_asValue valued] at hright hvalued' clean
    have typed := part.wellTyped hr
    obtain ⟨boundRight, there, part'⟩ := right.exists_elaborates complete.2.2.1 typed.2 hright
    rw [part'.run] at hvalued' clean
    have valued' := clean_asValue hvalued'
    have typed' := part'.wellTyped typed.2
    cases row : BinaryOperator.find? operator.kind boundLeft.type boundRight.type with
    | none =>
      simp [run_asValue valued', typed.1.type_ne_error, typed'.1.type_ne_error, row] at clean
    | some o => exact ⟨_, _, .binary part part' row⟩
  | grouped opening inner closing =>
    simp only [Expr.node, Node.complete_branch, Node.allComplete_cons] at complete
    simp only [Expr.resolve, run_bind, List.append_eq_nil_iff] at clean
    obtain ⟨hinner, hvalued⟩ := clean
    obtain ⟨bound, there, part⟩ := inner.exists_elaborates complete.2.1 hr hinner
    rw [part.run] at hvalued
    exact ⟨_, _, .grouped part (clean_asValue hvalued)⟩
  | call identifier opening arguments closing =>
    simp only [Expr.node, Node.complete_branch, Node.allComplete_cons,
      Node.allComplete_append] at complete
    simp only [Expr.resolve, run_bind, List.append_eq_nil_iff] at clean
    obtain ⟨harguments, clean⟩ := clean
    obtain ⟨bounds, there, parts⟩ := Expr.exists_elaborateAll arguments complete.2.2.1 hr harguments
    obtain ⟨pairs, hrun, hpairs⟩ := parts.run
    rw [hrun] at clean
    cases known : Function.builtins.find? (·.name == identifier.text) with
    | none => simp [known] at clean
    | some f =>
      by_cases hlength : pairs.length = f.parameters.length
      · have meaningful : ∀ pair ∈ pairs, pair.2.type ≠ .error := by
          intro pair hpair
          have hbound : pair.2 ∈ bounds := hpairs ▸ List.mem_map_of_mem hpair
          exact ((parts.wellTyped hr).1 pair.2 hbound).type_ne_error
        simp [known, hlength] at clean
        have fit := clean_argumentsFit hlength meaningful clean
        refine ⟨_, _, .call parts known ?_⟩
        rw [← hpairs, List.map_map]
        exact fit
      · simp [known, hlength] at clean

/-- A complete row of expressions that is resolved without a report means
something. -/
theorem Expr.exists_elaborateAll {outer : Rows} {here : Frame} (es : List Expr)
    (complete : Node.AllComplete (Expr.nodes es)) (hr : (here.rows outer).Meaningful)
    (clean : ((Expr.resolveAll es).run (here.scoping outer)).diagnostics = []) :
    ∃ bounds there, Expr.ElaborateAll outer here es bounds there := by
  cases es with
  | nil => exact ⟨_, _, .nil⟩
  | cons e es =>
    simp only [Expr.nodes, Node.allComplete_cons] at complete
    simp only [Expr.resolveAll, run_bind, List.append_eq_nil_iff] at clean
    obtain ⟨he, hvalued, hes, -⟩ := clean
    obtain ⟨bound, between, part⟩ := e.exists_elaborates complete.1 hr he
    rw [part.run] at hvalued hes
    have valued := clean_asValue hvalued
    rw [run_asValue valued] at hes
    obtain ⟨bounds, there, parts⟩ :=
      Expr.exists_elaborateAll es complete.2 (part.wellTyped hr).2 hes
    exact ⟨_, _, .cons part valued parts⟩

end

/-- A complete expression that is resolved without a report where a type is
required has that type. -/
theorem Expr.exists_elaborates_as {outer : Rows} {here : Frame} (type : Ty) (e : Expr)
    (complete : e.node.Complete) (hr : (here.rows outer).Meaningful)
    (clean : ((e.resolveAs type).run (here.scoping outer)).diagnostics = []) :
    ∃ bound there, e.Elaborates outer here bound there ∧ bound.type = type := by
  simp only [Expr.resolveAs, Expr.resolveValue, run_bind, List.append_eq_nil_iff] at clean
  obtain ⟨⟨he, hvalued⟩, hconverted⟩ := clean
  obtain ⟨bound, there, part⟩ := e.exists_elaborates complete hr he
  rw [part.run] at hvalued hconverted
  rw [run_asValue (clean_asValue hvalued)] at hconverted
  rcases clean_asType hconverted with herror | htype
  · exact absurd herror (part.wellTyped hr).1.type_ne_error
  · exact ⟨bound, there, part, htype⟩

mutual

/-- A complete statement that is resolved without a report means something. -/
theorem Stmt.exists_elaborates {outer : Rows} {here : Frame} (s : Stmt)
    (complete : s.node.Complete) (hr : (here.rows outer).Meaningful)
    (clean : (s.resolve.run (here.scoping outer)).diagnostics = []) :
    ∃ bound there, s.Elaborates outer here bound there := by
  cases s with
  | block opening statements closing =>
    simp only [Stmt.node, Node.complete_branch, Node.allComplete_cons,
      Node.allComplete_append] at complete
    simp only [Stmt.resolve, run_bind, diagnostics_inScope, List.append_eq_nil_iff] at clean
    obtain ⟨bounds, inner, parts⟩ :=
      Stmt.exists_elaborateAll statements complete.2.1 (meaningful_fresh hr) clean.1
    exact ⟨_, _, .block parts⟩
  | declaration keyword identifier equals initializer =>
    simp only [Stmt.node, Node.complete_branch, Node.allComplete_cons,
      Node.complete_leaf] at complete
    simp only [Stmt.resolve, Expr.resolveValue, run_bind, List.append_eq_nil_iff] at clean
    obtain ⟨⟨hinitializer, hvalued⟩, -, clean⟩ := clean
    obtain ⟨bound, there, part⟩ := initializer.exists_elaborates complete.2.2.2.1 hr hinitializer
    rw [part.run] at hvalued clean
    have valued := clean_asValue hvalued
    have present := complete.2.1
    cases free : there.vars.find? (·.name == identifier.text) with
    | none => exact ⟨_, _, .declaration part valued present free⟩
    | some v => simp [run_asValue valued, present, run_declare, Frame.next, free] at clean
  | ifThen keyword condition consequence =>
    simp only [Stmt.node, Node.complete_branch, Node.allComplete_cons] at complete
    simp only [Stmt.resolve, run_bind, List.append_eq_nil_iff] at clean
    obtain ⟨hcondition, hconsequence, -⟩ := clean
    obtain ⟨boundCondition, between, test, truth⟩ :=
      condition.exists_elaborates_as .bool complete.2.1 hr hcondition
    rw [test.run_resolveAs truth (by decide), diagnostics_inScope] at hconsequence
    have typed := test.wellTyped hr
    obtain ⟨bound, inner, part⟩ :=
      consequence.exists_elaborates complete.2.2.1 (meaningful_fresh typed.2) hconsequence
    exact ⟨_, _, .ifThen test truth part⟩
  | ifElse keyword condition consequence elseWord alternative =>
    simp only [Stmt.node, Node.complete_branch, Node.allComplete_cons] at complete
    simp only [Stmt.resolve, run_bind, List.append_eq_nil_iff] at clean
    obtain ⟨hcondition, hconsequence, halternative, -⟩ := clean
    obtain ⟨boundCondition, between, test, truth⟩ :=
      condition.exists_elaborates_as .bool complete.2.1 hr hcondition
    rw [test.run_resolveAs truth (by decide)] at hconsequence halternative
    have typed := test.wellTyped hr
    rw [diagnostics_inScope] at hconsequence
    obtain ⟨bound, inner, part⟩ :=
      consequence.exists_elaborates complete.2.2.1 (meaningful_fresh typed.2) hconsequence
    rw [run_inScope _ _ part.run, diagnostics_inScope] at halternative
    obtain ⟨bound', inner', part'⟩ :=
      alternative.exists_elaborates complete.2.2.2.2.1 (meaningful_fresh typed.2) halternative
    exact ⟨_, _, .ifElse test truth part part'⟩
  | whileLoop keyword condition body =>
    simp only [Stmt.node, Node.complete_branch, Node.allComplete_cons] at complete
    simp only [Stmt.resolve, run_bind, List.append_eq_nil_iff] at clean
    obtain ⟨hcondition, hbody, -⟩ := clean
    obtain ⟨boundCondition, between, test, truth⟩ :=
      condition.exists_elaborates_as .bool complete.2.1 hr hcondition
    rw [test.run_resolveAs truth (by decide), diagnostics_inScope] at hbody
    have typed := test.wellTyped hr
    obtain ⟨bound, inner, part⟩ :=
      body.exists_elaborates complete.2.2.1 (meaningful_fresh typed.2) hbody
    exact ⟨_, _, .whileLoop test truth part⟩
  | forLoop keyword identifier equals lower toWord upper body =>
    simp only [Stmt.node, Node.complete_branch, Node.allComplete_cons,
      Node.complete_leaf] at complete
    simp only [Stmt.resolve, run_bind, List.append_eq_nil_iff] at clean
    obtain ⟨-, present, -, hlower', -, hupper', hbody', -⟩ := complete
    obtain ⟨hlower, hupper, hbody⟩ := clean
    obtain ⟨boundLower, between, first, count⟩ :=
      lower.exists_elaborates_as .int hlower' hr hlower
    rw [first.run_resolveAs count (by decide)] at hupper hbody
    have typed := first.wellTyped hr
    obtain ⟨boundUpper, between', last, count'⟩ :=
      upper.exists_elaborates_as .int hupper' typed.2 hupper
    rw [last.run_resolveAs count' (by decide), diagnostics_inScope] at hbody
    have typed' := last.wellTyped typed.2
    have free : (Frame.fresh between'.nextId).vars.find? (·.name == identifier.text) = none := rfl
    simp only [present, Bool.false_eq_true, reduceIte, run_bind, run_newVariable,
      run_declare_next _ _ _ _ _ free, run_pure, List.nil_append, List.append_nil] at hbody
    have counting : Ty.int ≠ .error := by decide
    obtain ⟨bound, inner, part⟩ := body.exists_elaborates hbody'
      (meaningful_declare (meaningful_fresh typed'.2) counting) hbody
    exact ⟨_, _, .forLoop first count last count' present part⟩
  | expression inner =>
    simp only [Stmt.node, Node.complete_branch, Node.allComplete_cons] at complete
    simp only [Stmt.resolve, run_bind, List.append_eq_nil_iff] at clean
    obtain ⟨bound, there, part⟩ := inner.exists_elaborates complete.1 hr clean.1
    exact ⟨_, _, .expression part⟩

/-- A complete row of statements that is resolved without a report means
something. -/
theorem Stmt.exists_elaborateAll {outer : Rows} {here : Frame} (ss : List Stmt)
    (complete : Node.AllComplete (Stmt.nodes ss)) (hr : (here.rows outer).Meaningful)
    (clean : ((Stmt.resolveAll ss).run (here.scoping outer)).diagnostics = []) :
    ∃ bounds there, Stmt.ElaborateAll outer here ss bounds there := by
  cases ss with
  | nil => exact ⟨_, _, .nil⟩
  | cons s ss =>
    simp only [Stmt.nodes, Node.allComplete_cons] at complete
    simp only [Stmt.resolveAll, run_bind, List.append_eq_nil_iff] at clean
    obtain ⟨hs, hss, -⟩ := clean
    obtain ⟨bound, between, part⟩ := s.exists_elaborates complete.1 hr hs
    rw [part.run] at hss
    obtain ⟨bounds, there, parts⟩ :=
      Stmt.exists_elaborateAll ss complete.2 (part.wellTyped hr).2 hss
    exact ⟨_, _, .cons part parts⟩

end

end Syntax

end Scriptlet
