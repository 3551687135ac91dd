import Scriptlet.Diagnostic

/-!
# Computations that report

Parsing and resolving both thread a state and collect diagnostics without ever
stopping. A reporting computation is that and nothing more: it cannot see what
was reported before, so the diagnostics of a sequence are those of its parts,
one after the other.
-/

namespace Scriptlet

/-- What a reporting computation ends with. -/
structure Reported (σ α : Type) where
  /-- The result. -/
  value : α
  /-- The state behind it. -/
  state : σ
  /-- What was reported, in order. -/
  diagnostics : List Diagnostic

/-- A computation that replaces a state and reports diagnostics on the way. -/
def Reporting (σ α : Type) : Type := σ → Reported σ α

namespace Reporting

variable {σ α β : Type}

/-- Runs a computation from a state. -/
def run (m : Reporting σ α) (s : σ) : Reported σ α := m s

/-- A result without any report. -/
protected def pure (a : α) : Reporting σ α := fun s => ⟨a, s, []⟩

/-- Runs one computation behind another and joins their reports. -/
protected def bind (m : Reporting σ α) (f : α → Reporting σ β) : Reporting σ β := fun s =>
  let first := m s
  let second := f first.value first.state
  ⟨second.value, second.state, first.diagnostics ++ second.diagnostics⟩

instance : Monad (Reporting σ) where
  pure := Reporting.pure
  bind := Reporting.bind

/-- The current state. -/
def state : Reporting σ σ := fun s => ⟨s, s, []⟩

/-- Replaces the state. -/
def setState (s : σ) : Reporting σ Unit := fun _ => ⟨(), s, []⟩

/-- Changes the state. -/
def modifyState (f : σ → σ) : Reporting σ Unit := fun s => ⟨(), f s, []⟩

/-- Reports one problem at a place. -/
def report (problem : Problem) (span : Span) : Reporting σ Unit := fun s =>
  ⟨(), s, [⟨problem, span⟩]⟩

@[simp] theorem run_pure (a : α) (s : σ) : (pure a : Reporting σ α).run s = ⟨a, s, []⟩ := rfl

/-- Reports of a sequence are those of its parts, one after the other. -/
@[simp] theorem run_bind (m : Reporting σ α) (f : α → Reporting σ β) (s : σ) :
    (m >>= f).run s =
      ⟨((f (m.run s).value).run (m.run s).state).value,
        ((f (m.run s).value).run (m.run s).state).state,
        (m.run s).diagnostics ++ ((f (m.run s).value).run (m.run s).state).diagnostics⟩ := rfl

/-- Changing a result neither touches the state nor reports anything. -/
@[simp] theorem run_map (f : α → β) (m : Reporting σ α) (s : σ) :
    (f <$> m).run s = ⟨f (m.run s).value, (m.run s).state, (m.run s).diagnostics⟩ := by
  show Reporting.bind m (fun a => Reporting.pure (f a)) s = _
  simp [Reporting.bind, Reporting.pure, run]

@[simp] theorem run_state (s : σ) : (state : Reporting σ σ).run s = ⟨s, s, []⟩ := rfl

@[simp] theorem run_setState (s t : σ) : (setState t).run s = ⟨(), t, []⟩ := rfl

@[simp] theorem run_modifyState (f : σ → σ) (s : σ) : (modifyState f).run s = ⟨(), f s, []⟩ := rfl

@[simp] theorem run_report (problem : Problem) (span : Span) (s : σ) :
    (report problem span : Reporting σ Unit).run s = ⟨(), s, [⟨problem, span⟩]⟩ := rfl

/-- Sequencing is associative, and a bare result changes nothing. -/
instance : LawfulMonad (Reporting σ) :=
  LawfulMonad.mk' _
    (fun m => by
      funext s
      show Reporting.bind m _ s = m s
      simp [Reporting.bind, Reporting.pure])
    (fun a f => by
      funext s
      show Reporting.bind (Reporting.pure a) f s = f a s
      simp [Reporting.bind, Reporting.pure])
    (fun m f g => by
      funext s
      show Reporting.bind (Reporting.bind m f) g s =
        Reporting.bind m (fun a => Reporting.bind (f a) g) s
      simp [Reporting.bind, List.append_assoc])

end Reporting

end Scriptlet
