import Scriptlet.Proofs.Cutting.Pieces
import Scriptlet.Proofs.Lowering.Simulation
import Scriptlet.Proofs.Replacing.Mirroring
import Scriptlet.Proofs.Replacing.Unplaced
import Scriptlet.Proofs.Resolving.Correct

/-!
# A counting loop is the loop that is written out by hand

A counting loop around a block is resolved and lowered like the block that declares
its variable and repeats, as long as the variable has not passed the upper bound, the
same block and a step that adds one. The lowered programs are the same statement for
statement, operators and labels included, but for the mark of the variable, which only
the counting loop makes read-only. This takes bounds with a meaning: one that stands
for nothing silences all reports, and then the condition that is written by hand has
no meaning either.
-/

namespace Scriptlet

namespace Bound.Stmt

/-- A counting loop is lowered as it is when it is spelled out. -/
theorem lower_spelledOut (target : Variable) (lower upper : Expr) (body : Stmt) :
    (spelledOut target lower upper body).lower = (forLoop target lower upper body).lower := by
  have bounds : (spelledOut target lower upper body).labelBound =
      (forLoop target lower upper body).labelBound := by
    simp [spelledOut, labelBound, labelBoundAll, countingStep]
  rw [Stmt.lower, Stmt.lower, bounds, code_spelledOut]

end Bound.Stmt

/-- A computation behind one that reports nothing goes on with its result. -/
theorem Reporting.run_bind_silent {σ α β : Type} {m : Reporting σ α} {f : α → Reporting σ β}
    {s t : σ} {a : α} (first : m.run s = ⟨a, t, []⟩) : (m >>= f).run s = (f a).run t := by
  rw [run_bind, first]
  rfl

/-- A computation whose result is only changed reports what it reports. -/
theorem Reporting.run_bind_pure {σ α β : Type} {m : Reporting σ α} {f : α → β} {s t : σ} {a : α}
    {ds : List Diagnostic} (first : m.run s = ⟨a, t, ds⟩) :
    (m >>= fun a => pure (f a)).run s = ⟨f a, t, ds⟩ := by
  rw [run_bind, first, run_pure, List.append_nil]

namespace Syntax

open Reporting Resolving Session

/-- The token is written as a name. -/
structure Named (token : Token) (name : String) : Prop where
  text : token.text = name
  present : token.isMissing = false

/-- The tokens of a counting loop that is written out by hand, besides those of its
bounds and its body. -/
structure LoopTokens where
  opening : Token
  keyword : Token
  declared : Token
  initializes : Token
  repeats : Token
  tested : Token
  compares : Token
  /-- Parentheses around the upper bound, in case that it binds looser. -/
  parentheses? : Option (Token × Token)
  bodyOpening : Token
  assigned : Token
  assigns : Token
  read : Token
  adds : Token
  one : Token
  bodyClosing : Token
  closing : Token

namespace LoopTokens

/-- The tokens are those of a loop that counts with a variable of a name. -/
structure CountWith (t : LoopTokens) (name : String) : Prop where
  keyword : t.keyword.kind = .varWord
  declared : Named t.declared name
  tested : Named t.tested name
  compares : t.compares.kind = .lessEquals
  assigned : Named t.assigned name
  read : Named t.read name
  adds : t.adds.kind = .plus
  one : t.one.literal? = some (.int 1)

/-- The upper bound, in parentheses if there are any. -/
def enclose (t : LoopTokens) (upper : Expr) : Expr :=
  match t.parentheses? with
  | none => upper
  | some (opening, closing) => .grouped opening upper closing

/-- The condition: the variable has not passed the upper bound. -/
def condition (t : LoopTokens) (upper : Expr) : Expr :=
  .binary (.name t.tested) t.compares (t.enclose upper)

/-- The step: the variable grows by one. -/
def step (t : LoopTokens) : Expr :=
  .assignment t.assigned t.assigns (.binary (.name t.read) t.adds (.literal t.one))

/-- The loop that is written out by hand. -/
def loop (t : LoopTokens) (lower upper : Expr) (body : Stmt) : Stmt :=
  .block t.opening
    [.declaration t.keyword t.declared t.initializes lower,
      .whileLoop t.repeats (t.condition upper)
        (.block t.bodyOpening [body, .expression t.step] t.bodyClosing)]
    t.closing

end LoopTokens

variable {here : Frame} {outer : Rows} {s : Scoping} {v : Variable} {e : Expr}
  {bound boundLeft boundRight : Bound.Expr}

/-- An integer has a value. -/
theorem Expr.run_resolveValue_int (part : e.resolve.run s = ⟨bound, s, []⟩)
    (type : bound.type = .int) : e.resolveValue.run s = ⟨bound, s, []⟩ := by
  have valued : bound.type ≠ .void := by simp [type]
  rw [Expr.resolveValue, run_bind_silent part, run_asValue valued]

/-- An operation on integers is the one of the table. -/
theorem Expr.run_resolve_binary {left right : Expr} {operator : Token} {o : BinaryOperator}
    (part : left.resolve.run s = ⟨boundLeft, s, []⟩) (type : boundLeft.type = .int)
    (part' : right.resolve.run s = ⟨boundRight, s, []⟩) (type' : boundRight.type = .int)
    (operates : BinaryOperator.find? operator.kind .int .int = some o) :
    (Expr.binary left operator right).resolve.run s =
      ⟨.binary boundLeft o boundRight, s, []⟩ := by
  have valued : boundLeft.type ≠ .void := by simp [type]
  have valued' : boundRight.type ≠ .void := by simp [type']
  rw [Expr.resolve, run_bind_silent part, run_bind_silent (run_asValue valued),
    run_bind_silent part', run_bind_silent (run_asValue valued'), type, type', operates]
  rfl

namespace LoopTokens

variable {t : LoopTokens} {name : String} {upper : Expr}

/-- Parentheses do not change the upper bound. -/
theorem run_resolve_enclose (part : upper.resolve.run s = ⟨bound, s, []⟩)
    (type : bound.type = .int) : (t.enclose upper).resolve.run s = ⟨bound, s, []⟩ := by
  unfold enclose
  split
  · exact part
  · rw [Expr.resolve]
    exact Expr.run_resolveValue_int part type

/-- The condition that is written by hand is the one of the counting loop. -/
theorem run_condition (counts : t.CountWith name)
    (visible : (here.rows outer).lookup? name = some v) (counter : v.type = .int)
    (part : upper.resolve.run (here.scoping outer) = ⟨bound, here.scoping outer, []⟩)
    (type : bound.type = .int) :
    ((t.condition upper).resolveAs .bool).run (here.scoping outer) =
      ⟨Bound.countingCondition v bound, here.scoping outer, []⟩ := by
  rw [← counts.tested.text] at visible
  have tested := (Expr.Elaborates.name counts.tested.present visible).run
  have operates : BinaryOperator.find? t.compares.kind .int .int =
      some ⟨.lessEquals, .lessOrEqual, .int, .int, .bool⟩ := by
    rw [counts.compares]
    decide
  have whole := Expr.run_resolve_binary tested counter (t.run_resolve_enclose part type) type
    operates
  have valued : (Bound.countingCondition v bound).type ≠ .void := by
    simp [Bound.countingCondition, Bound.Expr.type]
  have value : (t.condition upper).resolveValue.run (here.scoping outer) =
      ⟨Bound.countingCondition v bound, here.scoping outer, []⟩ := by
    rw [Expr.resolveValue, condition, run_bind_silent whole]
    exact run_asValue valued
  rw [Expr.resolveAs, run_bind_silent value]
  exact run_asType rfl

/-- The step that is written by hand is the one of the counting loop. -/
theorem run_step (counts : t.CountWith name)
    (visible : (here.rows outer).lookup? name = some v) (counter : v.type = .int)
    (writable : v.isReadOnly = false) :
    (Stmt.expression t.step).resolve.run (here.scoping outer) =
      ⟨Bound.countingStep v, here.scoping outer, []⟩ := by
  have read := visible
  rw [← counts.read.text] at read
  rw [← counts.assigned.text] at visible
  have one : (Expr.literal t.one).Elaborates outer here
      (.literal (t.one.literal?.getD (.int 0))) here := .literal t.one
  rw [counts.one] at one
  have operates : BinaryOperator.find? t.adds.kind v.type .int =
      some ⟨.plus, .addition, .int, .int, .int⟩ := by
    rw [counts.adds, counter]
    decide
  have sum := Expr.Elaborates.binary (.name counts.read.present read) one operates
  have valued : Ty.int ≠ .void := by decide
  exact (Stmt.Elaborates.expression (.assignKnown sum valued visible writable counter.symm)).run

end LoopTokens

variable {lower upper : Expr} {boundLower boundUpper : Bound.Expr} {ss : List Stmt}
  {bounds : List Bound.Stmt} {there : Frame} {ds : List Diagnostic}

/-- An integer passes where an integer is required. -/
theorem Expr.run_resolveAs_int (part : e.resolve.run s = ⟨bound, s, []⟩)
    (type : bound.type = .int) : (e.resolveAs .int).run s = ⟨bound, s, []⟩ := by
  rw [Expr.resolveAs, run_bind_silent (run_resolveValue_int part type)]
  exact run_asType type

/-- The statements of a block are resolved in a scope of their own. -/
theorem Stmt.run_block (opening closing : Token) (there : Frame)
    (parts : (Stmt.resolveAll ss).run (Frame.scoping (.fresh here.nextId) (here.rows outer)) =
      ⟨bounds, there.scoping (here.rows outer), ds⟩) :
    (Stmt.block opening ss closing).resolve.run (here.scoping outer) =
      ⟨.block bounds, (here.behind there).scoping outer, ds⟩ := by
  rw [Stmt.resolve]
  exact run_bind_pure (run_inScope here outer parts)

/-- A statement without a report stands in front of others. -/
theorem Stmt.run_resolveAll_cons {stmt : Stmt} {b : Bound.Stmt} {r t : Scoping}
    (first : stmt.resolve.run s = ⟨b, r, []⟩)
    (others : (Stmt.resolveAll ss).run r = ⟨bounds, t, []⟩) :
    (Stmt.resolveAll (stmt :: ss)).run s = ⟨b :: bounds, t, []⟩ := by
  rw [Stmt.resolveAll, run_bind_silent first]
  exact run_bind_pure others

/-- A counting loop is made of its bounds and of its body, which is resolved in a scope
with the read-only variable. -/
theorem Stmt.run_forLoop {identifier : Token} (present : identifier.isMissing = false)
    (keyword equals toWord opening closing : Token)
    (first : lower.resolve.run (here.scoping outer) = ⟨boundLower, here.scoping outer, []⟩)
    (type : boundLower.type = .int)
    (last : upper.resolve.run (here.scoping outer) = ⟨boundUpper, here.scoping outer, []⟩)
    (type' : boundUpper.type = .int)
    (body : (Stmt.resolveAll ss).run (Frame.scoping (.fresh (here.nextId + 1))
        ([here.next identifier.text .int true] :: here.rows outer)) =
      ⟨bounds, there.scoping ([here.next identifier.text .int true] :: here.rows outer), ds⟩) :
    (Stmt.forLoop keyword identifier equals lower toWord upper
        (.block opening ss closing)).resolve.run (here.scoping outer) =
      ⟨.forLoop (here.next identifier.text .int true) boundLower boundUpper (.block bounds),
        (here.behind there).scoping outer, ds⟩ := by
  have declared := run_declare_next (.fresh here.nextId) (here.rows outer) identifier.text .int
    true rfl
  have inside : (Stmt.block opening ss closing).resolve.run
      (Frame.scoping ⟨[here.next identifier.text .int true], here.nextId + 1⟩ (here.rows outer)) =
      ⟨.block bounds, Frame.scoping ⟨[here.next identifier.text .int true], there.nextId⟩
        (here.rows outer), ds⟩ := Stmt.run_block opening closing there body
  rw [Stmt.resolve, run_bind_silent (Expr.run_resolveAs_int first type),
    run_bind_silent (Expr.run_resolveAs_int last type')]
  refine @run_inScope here outer _ _ _ ⟨[here.next identifier.text .int true], there.nextId⟩ _ ?_
  rw [run_bind_silent (run_newVariable _ _ _ _ _), present]
  exact (run_bind_silent declared).trans (run_bind_pure inside)

/-- An integer bound that has a meaning and declares nothing is resolved alike wherever
its names mean the same. -/
theorem Expr.exists_run_resolve_int {here' : Frame} {outer' : Rows} {id : Nat}
    (same : ∀ name ∈ e.names, (here'.rows outer').lookup? name =
      ((here.rows outer).lookup? name).map (Variable.unlock id))
    (visible : ∀ name ∈ e.targets, ((here.rows outer).lookup? name).isSome)
    (clean : ((e.resolveAs .int).run (here.scoping outer)).diagnostics = [])
    (meaning : (e.resolve.run (here.scoping outer)).value.type ≠ .error) :
    ∃ bound, bound.type = .int ∧
      e.resolve.run (here.scoping outer) = ⟨bound, here.scoping outer, []⟩ ∧
      e.resolve.run (here'.scoping outer') =
        ⟨bound.replace (Variable.unlock id), here'.scoping outer', []⟩ := by
  obtain ⟨⟨stays, stays'⟩, replaced, fewer⟩ :=
    e.tracks_resolve (stands_replaces same) (fun _ h => h) visible _ _ ⟨rfl, rfl⟩
  rw [Expr.resolveAs, Expr.resolveValue, run_bind, run_bind] at clean
  simp only [List.append_eq_nil_iff] at clean
  obtain ⟨⟨silent, valued⟩, typed⟩ := clean
  rw [run_asValue (clean_asValue valued)] at typed
  rw [silent, List.sublist_nil] at fewer
  exact ⟨_, (clean_asType typed).resolve_left meaning, run_eq rfl stays silent,
    run_eq replaced stays' fewer⟩

/-- The loop that is written out by hand declares a variable and repeats the block and
the step. -/
theorem LoopTokens.run_loop {t : LoopTokens} {name : String} (counts : t.CountWith name)
    (opening closing : Token)
    (first : lower.resolve.run (Frame.scoping (.fresh here.nextId) (here.rows outer)) =
      ⟨boundLower, Frame.scoping (.fresh here.nextId) (here.rows outer), []⟩)
    (type : boundLower.type = .int)
    (last : upper.resolve.run (Frame.scoping ⟨[here.next name .int false], here.nextId + 1⟩
        (here.rows outer)) =
      ⟨boundUpper, Frame.scoping ⟨[here.next name .int false], here.nextId + 1⟩
        (here.rows outer), []⟩)
    (type' : boundUpper.type = .int)
    (body : (Stmt.resolveAll ss).run (Frame.scoping (.fresh (here.nextId + 1))
        ([] :: [] :: [here.next name .int false] :: here.rows outer)) =
      ⟨bounds, there.scoping ([] :: [] :: [here.next name .int false] :: here.rows outer), []⟩) :
    (t.loop lower upper (.block opening ss closing)).resolve.run (here.scoping outer) =
      ⟨Bound.Stmt.spelledOut (here.next name .int false) boundLower boundUpper (.block bounds),
        (here.behind there).scoping outer, []⟩ := by
  have visible (k : Nat) : (Frame.rows ⟨[here.next name .int false], k⟩
      (here.rows outer)).lookup? name = some (here.next name .int false) := by
    simp [Frame.rows, Rows.lookup?, Frame.next]
  have declares : (Stmt.declaration t.keyword t.declared t.initializes lower).resolve.run
      (Frame.scoping (.fresh here.nextId) (here.rows outer)) =
      ⟨.declaration (here.next name .int false) boundLower,
        Frame.scoping ⟨[here.next name .int false], here.nextId + 1⟩ (here.rows outer), []⟩ := by
    have declared := run_declare_next (.fresh here.nextId) (here.rows outer) name .int false rfl
    rw [Stmt.resolve, run_bind_silent (Expr.run_resolveValue_int first type), counts.keyword,
      counts.declared.text, counts.declared.present, type,
      run_bind_silent (run_newVariable _ _ _ _ _)]
    exact run_bind_silent declared
  have part : (Stmt.block opening ss closing).resolve.run
      (Frame.scoping (.fresh (here.nextId + 1))
        ([] :: [here.next name .int false] :: here.rows outer)) =
      ⟨.block bounds, Frame.scoping ⟨[], there.nextId⟩
        ([] :: [here.next name .int false] :: here.rows outer), []⟩ :=
    Stmt.run_block opening closing there body
  have step : (Stmt.expression t.step).resolve.run (Frame.scoping ⟨[], there.nextId⟩
        ([] :: [here.next name .int false] :: here.rows outer)) =
      ⟨Bound.countingStep (here.next name .int false), Frame.scoping ⟨[], there.nextId⟩
        ([] :: [here.next name .int false] :: here.rows outer), []⟩ :=
    t.run_step counts (visible here.nextId) rfl rfl
  have round : (Stmt.block t.bodyOpening [.block opening ss closing, .expression t.step]
        t.bodyClosing).resolve.run
      (Frame.scoping (.fresh (here.nextId + 1)) ([here.next name .int false] :: here.rows outer)) =
      ⟨.block [.block bounds, Bound.countingStep (here.next name .int false)],
        Frame.scoping ⟨[], there.nextId⟩ ([here.next name .int false] :: here.rows outer), []⟩ :=
    Stmt.run_block _ _ ⟨[], there.nextId⟩
      (Stmt.run_resolveAll_cons part (Stmt.run_resolveAll_cons step rfl))
  have repeats : (Stmt.whileLoop t.repeats (t.condition upper) (.block t.bodyOpening
        [.block opening ss closing, .expression t.step] t.bodyClosing)).resolve.run
      (Frame.scoping ⟨[here.next name .int false], here.nextId + 1⟩ (here.rows outer)) =
      ⟨.whileLoop (Bound.countingCondition (here.next name .int false) boundUpper)
          (.block [.block bounds, Bound.countingStep (here.next name .int false)]),
        Frame.scoping ⟨[here.next name .int false], there.nextId⟩ (here.rows outer), []⟩ := by
    rw [Stmt.resolve, run_bind_silent (t.run_condition counts (visible _) rfl last type')]
    have inside := run_inScope ⟨[here.next name .int false], here.nextId + 1⟩ _ round
    exact run_bind_pure inside
  exact Stmt.run_block _ _ ⟨[here.next name .int false], there.nextId⟩
    (Stmt.run_resolveAll_cons declares (Stmt.run_resolveAll_cons repeats rfl))

/-- Where the counting loop has its read-only variable, the one that is written out by
hand has a variable that may be assigned, and otherwise the same names. -/
theorem lookup?_counter (older : Rows.Below here.nextId (here.rows outer)) (counter name : String) :
    Rows.lookup? ([] :: [] :: [here.next counter .int false] :: here.rows outer) name =
      (Rows.lookup? ([here.next counter .int true] :: here.rows outer) name).map
        (Variable.unlock here.nextId) := by
  have unlocked : (here.next counter .int true).unlock here.nextId =
      here.next counter .int false := if_pos rfl
  have found := Rows.lookup?_append [[here.next counter .int true]] name
    (Rows.map_unlock_lookup? older name).symm
  rw [Rows.unlock, List.map_singleton, List.map_singleton, unlocked] at found
  exact found

/-- Behind the declaration of the variable, all other names mean what they mean in front
of it. -/
theorem lookup?_otherwise (older : Rows.Below here.nextId (here.rows outer))
    {counter name : String} (other : counter ≠ name) :
    (Frame.rows ⟨[here.next counter .int false], here.nextId + 1⟩ (here.rows outer)).lookup? name =
      ((here.rows outer).lookup? name).map (Variable.unlock here.nextId) := by
  rw [Rows.map_unlock_lookup? older]
  simp [Frame.rows, Rows.lookup?, Frame.next, other]

/-- The body of the loop that is written out by hand is resolved like the one of the
counting loop, in two more scopes. -/
theorem exists_run_body (older : Rows.Below here.nextId (here.rows outer)) (counter : String)
    (ss : List Stmt) :
    ∃ (bounds : List Bound.Stmt) (there : Frame) (ds : List Diagnostic),
      (Stmt.resolveAll ss).run (Frame.scoping (.fresh (here.nextId + 1))
          ([here.next counter .int true] :: here.rows outer)) =
        ⟨bounds, there.scoping ([here.next counter .int true] :: here.rows outer), ds⟩ ∧
      (ds = [] → (Stmt.resolveAll ss).run (Frame.scoping (.fresh (here.nextId + 1))
          ([] :: [] :: [here.next counter .int false] :: here.rows outer)) =
        ⟨Bound.Stmt.replaceAll (Variable.unlock here.nextId) id bounds,
          (there.unlock here.nextId).scoping
            ([] :: [] :: [here.next counter .int false] :: here.rows outer), []⟩) := by
  obtain ⟨⟨there, inner, length, -, state, state'⟩, replaced, fewer⟩ :=
    Stmt.tracks_resolveAll (mirrors_replaces (lookup?_counter older counter)) 0 ss _ _
      ⟨.fresh (here.nextId + 1), [], rfl, Nat.lt_succ_self _, rfl, rfl⟩
  rw [List.eq_nil_of_length_eq_zero length] at state state'
  refine ⟨_, there, _, run_eq rfl state rfl, fun silent => run_eq replaced state' ?_⟩
  rw [List.nil_append, silent] at fewer
  exact List.eq_nil_of_sublist_nil fewer

/-- A counting loop around a block that is resolved without a report is the loop that is
written out by hand, at whatever places the two stand. The bounds have a meaning and
declare nothing, as they assign to visible variables only, and the upper one does not
mention the variable of the loop. Then the other loop is resolved without a report as
well, with the same scopes and identities behind it, and the lowered programs are the
same up to the read-only mark of the variable. -/
theorem forLoop_is_whileLoop {t : LoopTokens} {keyword identifier equals toWord : Token}
    {opening closing : Token} {counting written : Stmt}
    (older : Rows.Below here.nextId (here.rows outer))
    (loops : counting.unplaced = (Stmt.forLoop keyword identifier equals lower toWord upper
      (.block opening ss closing)).unplaced)
    (present : identifier.isMissing = false) (counts : t.CountWith identifier.text)
    (spelled : written.unplaced = (t.loop lower upper (.block opening ss closing)).unplaced)
    (clean : (counting.resolve.run (here.scoping outer)).diagnostics = [])
    (meaning : ∀ e ∈ [lower, upper], (e.resolve.run (here.scoping outer)).value.type ≠ .error)
    (visible : ∀ e ∈ [lower, upper], ∀ name ∈ e.targets,
      ((here.rows outer).lookup? name).isSome)
    (unread : identifier.text ∉ upper.names) :
    (written.resolve.run (here.scoping outer)).diagnostics = [] ∧
      (written.resolve.run (here.scoping outer)).state =
        (counting.resolve.run (here.scoping outer)).state ∧
      (written.resolve.run (here.scoping outer)).value.lower =
        (counting.resolve.run (here.scoping outer)).value.lower.map
          (Bound.Stmt.replace (Variable.unlock here.nextId) id) := by
  have unlocked : (here.next identifier.text .int true).unlock here.nextId =
      here.next identifier.text .int false := if_pos rfl
  have counted := Stmt.run_of_unplaced_eq loops.symm (run_eq rfl rfl clean)
  replace clean := congrArg Reported.diagnostics counted
  have cleanLower : ((lower.resolveAs .int).run (here.scoping outer)).diagnostics = [] := by
    rw [Stmt.resolve, run_bind] at clean
    exact (List.append_eq_nil_iff.1 clean).1
  -- The lower bound stands inside of the block that declares the variable.
  have kept : ∀ name ∈ lower.names,
      (Frame.rows (.fresh here.nextId) (here.rows outer)).lookup? name =
        ((here.rows outer).lookup? name).map (Variable.unlock here.nextId) :=
    fun name _ => (Rows.map_unlock_lookup? older name).symm
  obtain ⟨boundLower, type, first, first'⟩ :=
    Expr.exists_run_resolve_int kept (visible lower (by simp)) cleanLower (meaning lower (by simp))
  have cleanUpper : ((upper.resolveAs .int).run (here.scoping outer)).diagnostics = [] := by
    rw [Stmt.resolve, run_bind_silent (Expr.run_resolveAs_int first type), run_bind] at clean
    exact (List.append_eq_nil_iff.1 clean).1
  -- The upper bound stands behind the declaration, which it does not notice.
  have others : ∀ name ∈ upper.names, identifier.text ≠ name := by
    rintro _ named rfl
    exact unread named
  obtain ⟨boundUpper, type', last, last'⟩ :=
    Expr.exists_run_resolve_int (fun name named => lookup?_otherwise older (others name named))
      (visible upper (by simp)) cleanUpper (meaning upper (by simp))
  -- The body stands in two more scopes.
  obtain ⟨bounds, there, ds, body, body'⟩ := exists_run_body older identifier.text ss
  rw [Stmt.run_forLoop present keyword equals toWord opening closing first type last type' body]
    at clean counted
  have spelledOut := LoopTokens.run_loop counts opening closing first'
    ((boundLower.replace_type Variable.unlock_type).trans type) last'
    ((boundUpper.replace_type Variable.unlock_type).trans type') (body' clean)
  obtain ⟨value, state, -⟩ := Reported.mk.inj counted
  rw [Stmt.run_of_unplaced_eq spelled spelledOut, ← value, ← state]
  refine ⟨rfl, rfl, ?_⟩
  rw [Bound.Stmt.lower_spelledOut, ← Bound.Stmt.lower_replace, Bound.Stmt.replace, unlocked]
  rfl

/-- The tokens of a loop that counts with a variable `i`. -/
def countingTokens : LoopTokens where
  opening := word .openCurly "\x7b"
  keyword := word .varWord "var"
  declared := word .identifier "i"
  initializes := word .assignment "="
  repeats := word .whileWord "while"
  tested := word .identifier "i"
  compares := word .lessEquals "<="
  parentheses? := none
  bodyOpening := word .openCurly "\x7b"
  assigned := word .identifier "i"
  assigns := word .assignment "="
  read := word .identifier "i"
  adds := word .plus "+"
  one := ⟨.number, "1", some (.int 1), .empty 0, false⟩
  bodyClosing := word .closeCurly "\x7d"
  closing := word .closeCurly "\x7d"

/-- A loop that counts with a variable `i`, without places. -/
def countingLoop (lower upper : Expr) (body : List Stmt) : Stmt :=
  .forLoop (word .forWord "for") (word .identifier "i") (word .assignment "=") lower
    (word .toWord "to") upper (.block (word .openCurly "\x7b") body (word .closeCurly "\x7d"))

/-- The loop written out by hand, without places. -/
def writtenLoop (lower upper : Expr) (body : List Stmt) : Stmt :=
  countingTokens.loop lower upper
    (.block (word .openCurly "\x7b") body (word .closeCurly "\x7d"))

/-- A scope with a variable. -/
def boundsScope : Frame := ⟨[⟨0, "n", .int, false⟩], 1⟩

/-- A counting loop with a variable in all of its parts. -/
def countingSource : Source := .ofText "for i = n = 2 to n + 2 \x7b n = i \x7d"

/-- The same loop, written out by hand. -/
def writtenSource : Source := .ofText
  "\x7b var i = n = 2 while i <= n + 2 \x7b \x7b n = i \x7d i = i + 1 \x7d \x7d"

/-- The lower bound assigns to a variable that the upper bound reads and that the body
assigns to. -/
theorem forLoop_is_whileLoop_assigningSample :
    let counting := countingSource.script.statement.resolve.run (boundsScope.scoping [])
    let written := writtenSource.script.statement.resolve.run (boundsScope.scoping [])
    counting.diagnostics = [] ∧ written.diagnostics = [] ∧ written.state = counting.state ∧
      written.value.lower =
        counting.value.lower.map (Bound.Stmt.replace (Variable.unlock 1) id) := by
  let n : Token := word .identifier "n"
  let two : Expr := .literal ⟨.number, "2", some (.int 2), .empty 0, false⟩
  let lower : Expr := .assignment n (word .assignment "=") two
  let upper : Expr := .binary (.name n) (word .plus "+") two
  let body : List Stmt :=
    [.expression (.assignment n (word .assignment "=") (.name (word .identifier "i")))]
  have older : Rows.Below boundsScope.nextId (boundsScope.rows []) := by
    simp [Rows.Below, boundsScope, Frame.rows]
  have loops : countingSource.script.statement.unplaced =
      (countingLoop lower upper body).unplaced := rfl
  have spelled : writtenSource.script.statement.unplaced =
      (writtenLoop lower upper body).unplaced := rfl
  have counts : countingTokens.CountWith "i" :=
    ⟨rfl, ⟨rfl, rfl⟩, ⟨rfl, rfl⟩, rfl, ⟨rfl, rfl⟩, ⟨rfl, rfl⟩, rfl, rfl⟩
  have clean : (countingSource.script.statement.resolve.run
      (boundsScope.scoping [])).diagnostics = [] := rfl
  refine ⟨clean, forLoop_is_whileLoop older loops rfl counts spelled clean ?_ ?_
    (by decide)⟩
  · simp only [List.forall_mem_cons]
    exact ⟨by decide, by decide, List.forall_mem_nil _⟩
  · simp only [List.forall_mem_cons]
    exact ⟨by decide, List.forall_mem_nil _, List.forall_mem_nil _⟩

/-- The type of the condition of a jump, if it has one. -/
def conditionType? : Bound.Stmt → Option Ty
  | .gotoIf _ condition _ => some condition.type
  | _ => none

/-- With a bound that has no meaning, of a variable that was declared without a value, both
loops are resolved without a report, but the condition that is written out by hand has no
meaning either. So no renaming makes the programs the same. -/
theorem meaningless_forLoop_ne_whileLoop :
    ∃ (here : Frame) (lower upper : Expr) (counting written : Stmt),
      here.vars = (Submission.compile [] 0 (.ofText "var e = ")).1.globals ∧
      here.nextId = (Submission.compile [] 0 (.ofText "var e = ")).2 ∧
      counting.unplaced = (countingLoop lower upper []).unplaced ∧
      written.unplaced = (writtenLoop lower upper []).unplaced ∧
      lower.targets = [] ∧ upper.targets = [] ∧ "i" ∉ upper.names ∧
      (counting.resolve.run (here.scoping [])).diagnostics = [] ∧
      (written.resolve.run (here.scoping [])).diagnostics = [] ∧
      ∀ g l, (written.resolve.run (here.scoping [])).value.lower ≠
        (counting.resolve.run (here.scoping [])).value.lower.map (Bound.Stmt.replace g l) := by
  refine ⟨⟨[⟨0, "e", .error, false⟩], 1⟩, .name (word .identifier "e"),
    .literal ⟨.number, "5", some (.int 5), .empty 0, false⟩,
    (Source.ofText "for i = e to 5 \x7b \x7d").script.statement,
    (Source.ofText
      "\x7b var i = e while i <= 5 \x7b \x7b \x7d i = i + 1 \x7d \x7d").script.statement,
    rfl, rfl, rfl, rfl, rfl, rfl, List.not_mem_nil, rfl, rfl, fun g l same => ?_⟩
  have types : [Ty.error] = [Ty.bool] :=
    congrArg (fun p : Program => p.filterMap conditionType?) same
  cases types

end Syntax

end Scriptlet
