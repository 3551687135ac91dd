import Scriptlet.Proofs.Parsing.ReadBack
import Scriptlet.Proofs.Scanning.Continuing

/-!
# Parsing goes on behind the end

Two parsers of the same sort are run, one on tokens in front of an end of the
source, the other one on the same tokens in front of others. As long as neither
has come to the end of the tokens that they share, they do and report the same.
Where the first one comes to the end, it stays there and reports nothing but what
is missing. The other one has reported the same up to there, and if it finds
tokens of the missing kinds and then one that goes on with nothing, it takes the
former, leaves the latter and reports nothing more.
-/

namespace Scriptlet.Syntax

open Reporting

/-- The kinds of tokens that go on with no expression and no statement in front of
them. -/
def Kind.stopping : List Kind := [.eof, .identifier, .closeParen, .toWord, .closeCurly]

namespace Parser

/-- The reports that tokens of some kinds are required where the source ends. -/
def endReports (last : Token) (kinds : List Kind) : List Diagnostic :=
  kinds.map fun kind => ⟨.unexpectedToken last.kind kind, last.span⟩

/-- A token that is not required is an early end if it is an end. -/
@[simp] theorem isUnexpectedEnd_unexpectedToken (actual expected : Kind) (span : Span) :
    Diagnostic.isUnexpectedEnd ⟨.unexpectedToken actual expected, span⟩ =
      decide (actual = .eof) := by
  cases actual <;> rfl

/-- All that is missed where the source ends is missed because of that. -/
theorem isUnexpectedEnd_endReports {last : Token} (ends : last.kind = .eof) {kinds : List Kind} :
    ∀ d ∈ endReports last kinds, d.isUnexpectedEnd = true := by
  intro d hd
  obtain ⟨kind, -, rfl⟩ := List.mem_map.1 hd
  rw [isUnexpectedEnd_unexpectedToken, ends, decide_eq_true rfl]

/-- What is missed where the source ends tells the kinds of the missing tokens. -/
theorem endReports_inj {last : Token} {kinds kinds' : List Kind}
    (h : endReports last kinds = endReports last kinds') : kinds = kinds' := by
  refine (List.map_inj_right fun kind kind' same => ?_).1 h
  simpa using same

/-- The first parser takes the shared tokens, stays at the end and misses tokens of
some kinds there, behind earlier reports of other sorts. The second one makes the
same earlier reports, and no others if the missing tokens are filled in and the
next one is of a kind that goes on with nothing. -/
structure AtEnd {α β : Type} (last : Token) (sequel : List Kind) (tokens : List Token)
    (ds : List Diagnostic) (kinds : List Kind) (m : Parser α) (m' : Parser β) : Prop where
  stays : (m.run (tokens ++ [last])).state = [last]
  reports : (m.run (tokens ++ [last])).diagnostics = ds ++ endReports last kinds
  earlier : ∀ d ∈ ds, d.isUnexpectedEnd = false
  completing : ∀ kind ∈ kinds, kind ∈ Kind.completing
  starts : ∀ others, ds <+: (m'.run (tokens ++ others)).diagnostics
  completed : ∀ filled others, filled.map Token.kind = kinds → (current others).kind ∈ sequel →
    (m'.run (tokens ++ (filled ++ others))).state = others ∧
      (m'.run (tokens ++ (filled ++ others))).diagnostics = ds

/-- Either both parsers stop in front of a token that they share, with the same
reports of other sorts than a missing end, or the first one comes to the end. -/
inductive Resumes {α β : Type} (last : Token) (sequel : List Kind) (tokens : List Token)
    (m : Parser α) (m' : Parser β) : Prop where
  | inside {front : List Token} {ds : List Diagnostic} {a : α} {a' : β} (nonempty : front ≠ [])
      (suffix : front <:+ tokens) (earlier : ∀ d ∈ ds, d.isUnexpectedEnd = false)
      (first : m.run (tokens ++ [last]) = ⟨a, front ++ [last], ds⟩)
      (second : ∀ others, m'.run (tokens ++ others) = ⟨a', front ++ others, ds⟩) :
      Resumes last sequel tokens m m'
  | atEnd {ds : List Diagnostic} {kinds : List Kind} (h : AtEnd last sequel tokens ds kinds m m') :
      Resumes last sequel tokens m m'

/-- At the end alone the first parser misses tokens of some kinds, and behind up to
some number of shared tokens the two resume each other. -/
structure Resumable {α β : Type} (last : Token) (sequel kinds : List Kind) (most : Nat)
    (m : Parser α) (m' : Parser β) : Prop where
  waits : AtEnd last sequel [] [] kinds m m'
  resumes : ∀ tokens, tokens ≠ [] → tokens.length ≤ most → (∀ t ∈ tokens, t.kind ≠ .eof) →
    Resumes last sequel tokens m m'

/-- The kinds with which tokens of some kinds and others of a sequel begin. -/
def leading (kinds sequel : List Kind) : List Kind :=
  match kinds with
  | [] => sequel
  | kind :: _ => [kind]

variable {α β γ δ : Type} {last : Token} {sequel sequel' kinds kinds' : List Kind}
  {tokens front : List Token} {ds : List Diagnostic} {most : Nat} {m : Parser α} {m' : Parser β}
  {n : Parser γ} {n' : Parser δ} {f : α → Parser γ} {f' : β → Parser δ}

/-- Tokens of some kinds in front of others begin with a leading kind. -/
theorem mem_leading {filled others : List Token} (fills : filled.map Token.kind = kinds)
    (follows : (current others).kind ∈ sequel) :
    (current (filled ++ others)).kind ∈ leading kinds sequel := by
  subst fills
  cases filled with
  | nil => exact follows
  | cons t filled => exact List.mem_singleton.2 rfl

/-- At the end alone, parsers that run alike come to the end alike. -/
theorem AtEnd.congr_nil {k : Parser α} {k' : Parser β} (h : AtEnd last sequel [] [] kinds k k')
    (first : m.run [last] = k.run [last])
    (second : ∀ filled others, filled.map Token.kind = kinds → (current others).kind ∈ sequel →
      m'.run (filled ++ others) = k'.run (filled ++ others)) :
    AtEnd last sequel [] [] kinds m m' := by
  refine ⟨?_, ?_, h.earlier, h.completing, fun _ => List.nil_prefix, ?_⟩
  · exact (congrArg Reported.state first).trans h.stays
  · exact (congrArg Reported.diagnostics first).trans h.reports
  · intro filled others fills follows
    have same := second filled others fills follows
    have completed := h.completed filled others fills follows
    rw [List.nil_append] at completed ⊢
    rwa [same]

/-- Parsers that take all shared tokens without a report come to the end. -/
theorem atEnd_of_silent {a : α} (first : m.run (tokens ++ [last]) = ⟨a, [last], []⟩)
    (second : ∀ others, (current others).kind ∈ sequel →
      ∃ a', m'.run (tokens ++ others) = ⟨a', others, []⟩) :
    AtEnd last sequel tokens [] [] m m' := by
  refine ⟨?_, ?_, List.forall_mem_nil _, List.forall_mem_nil _, fun _ => List.nil_prefix, ?_⟩
  · rw [first]
  · rw [first]
    rfl
  · intro filled others fills follows
    obtain rfl := List.map_eq_nil_iff.1 fills
    obtain ⟨a', run⟩ := second others follows
    rw [List.nil_append, run]
    exact ⟨rfl, rfl⟩

/-- If the first of two steps comes to the end, so does the sequence, and all that
the second one misses is missing as well. -/
theorem AtEnd.bind (h : AtEnd last sequel tokens ds kinds m m')
    (h' : ∀ a a', AtEnd last sequel' [] [] kinds' (f a) (f' a'))
    (leads : ∀ kind ∈ leading kinds' sequel', kind ∈ sequel) :
    AtEnd last sequel' tokens ds (kinds ++ kinds') (m >>= f) (m' >>= f') := by
  have stays := h.stays
  have reports := h.reports
  refine ⟨?_, ?_, h.earlier, ?_, fun others => ?_, fun filled others fills follows => ?_⟩
  · rw [run_bind, stays]
    exact (h' _ (m'.run []).value).stays
  · have reports' := (h' (m.run (tokens ++ [last])).value (m'.run []).value).reports
    rw [List.nil_append, List.nil_append] at reports'
    rw [run_bind, stays, reports, reports', List.append_assoc, endReports, endReports, endReports,
      List.map_append]
  · have completing' := (h' (m.run []).value (m'.run []).value).completing
    exact List.forall_mem_append.2 ⟨h.completing, completing'⟩
  · rw [run_bind]
    exact (h.starts others).trans (List.prefix_append _ _)
  · obtain ⟨filled, filled', rfl, fills, fills'⟩ := List.map_eq_append_iff.1 fills
    have leads' := leads _ (mem_leading fills' follows)
    obtain ⟨state, reports⟩ := h.completed filled (filled' ++ others) fills leads'
    rw [List.append_assoc, run_bind, state, reports]
    have waits := h' (m.run []).value (m'.run (tokens ++ (filled ++ (filled' ++ others)))).value
    have completed := waits.completed filled' others fills' follows
    rw [List.nil_append] at completed
    exact ⟨completed.1, by rw [completed.2, List.append_nil]⟩

/-- If the first of two steps does the same in front of the end and of others, what
comes behind it decides. -/
theorem Resumes.after {a : α} {a' : β} (h : Resumes last sequel front (f a) (f' a'))
    (suffix : front <:+ tokens) (earlier : ∀ d ∈ ds, d.isUnexpectedEnd = false)
    (first : m.run (tokens ++ [last]) = ⟨a, front ++ [last], ds⟩)
    (second : ∀ others, m'.run (tokens ++ others) = ⟨a', front ++ others, ds⟩) :
    Resumes last sequel tokens (m >>= f) (m' >>= f') := by
  cases h with
  | @inside front' ds' b b' nonempty suffix' earlier' first' second' =>
    have first'' : (m >>= f).run (tokens ++ [last]) = ⟨b, front' ++ [last], ds ++ ds'⟩ := by
      rw [run_bind, first, first']
    have second'' (others : List Token) :
        (m' >>= f').run (tokens ++ others) = ⟨b', front' ++ others, ds ++ ds'⟩ := by
      rw [run_bind, second, second']
    exact .inside nonempty (suffix'.trans suffix) (List.forall_mem_append.2 ⟨earlier, earlier'⟩)
      first'' second''
  | @atEnd ds' kinds h =>
    have reports : ((m >>= f).run (tokens ++ [last])).diagnostics =
        ds ++ ds' ++ endReports last kinds := by
      rw [run_bind, first, List.append_assoc]
      exact congrArg (ds ++ ·) h.reports
    refine .atEnd ⟨?_, reports, ?_, h.completing, fun others => ?_, ?_⟩
    · rw [run_bind, first]
      exact h.stays
    · exact List.forall_mem_append.2 ⟨earlier, h.earlier⟩
    · rw [run_bind, second]
      exact (List.prefix_append_right_inj ds).2 (h.starts others)
    · intro filled others fills follows
      have completed := h.completed filled others fills follows
      rw [run_bind, second]
      exact ⟨completed.1, congrArg (ds ++ ·) completed.2⟩

/-- Sequences resume each other if both of their steps do. -/
theorem Resumes.bind (h : Resumes last sequel tokens m m')
    (waits : ∀ a a', AtEnd last sequel' [] [] kinds (f a) (f' a'))
    (leads : ∀ kind ∈ leading kinds sequel', kind ∈ sequel)
    (goesOn : ∀ a a' front, front ≠ [] → front <:+ tokens →
      Resumes last sequel' front (f a) (f' a')) :
    Resumes last sequel' tokens (m >>= f) (m' >>= f') := by
  cases h with
  | inside nonempty suffix earlier first second =>
    exact (goesOn _ _ _ nonempty suffix).after suffix earlier first second
  | atEnd h => exact .atEnd (h.bind waits leads)

/-- If the first of two steps does the same in front of the end and of others and
reports nothing, what comes behind it decides. -/
theorem Resumes.silent {a : α} {a' : β} (h : Resumes last sequel front (f a) (f' a'))
    (suffix : front <:+ tokens) (first : m.run (tokens ++ [last]) = ⟨a, front ++ [last], []⟩)
    (second : ∀ others, m'.run (tokens ++ others) = ⟨a', front ++ others, []⟩) :
    Resumes last sequel tokens (m >>= f) (m' >>= f') :=
  h.after suffix (List.forall_mem_nil _) first second

/-- Looking at the next token takes none. -/
theorem Resumes.peek {t : Token} {f : Kind → Parser γ} {f' : Kind → Parser δ}
    (h : Resumes last sequel (t :: tokens) (f t.kind) (f' t.kind)) :
    Resumes last sequel (t :: tokens) (Parser.peek >>= f) (Parser.peek >>= f') :=
  h.silent (List.suffix_refl _) rfl fun _ => rfl

/-- Looking at the token behind the next one takes none. -/
theorem Resumes.peekSecond {t u : Token} {f : Kind → Parser γ} {f' : Kind → Parser δ}
    (h : Resumes last sequel (t :: u :: tokens) (f u.kind) (f' u.kind)) :
    Resumes last sequel (t :: u :: tokens) (Parser.peekSecond >>= f) (Parser.peekSecond >>= f') :=
  h.silent (List.suffix_refl _) rfl fun _ => rfl

/-- A shared token is taken by both parsers. -/
theorem Resumes.advance {t : Token} {f : Token → Parser γ} {f' : Token → Parser δ}
    (h : Resumes last sequel tokens (f t) (f' t)) :
    Resumes last sequel (t :: tokens) (Parser.advance >>= f) (Parser.advance >>= f') :=
  h.silent (List.suffix_cons t tokens) rfl fun _ => rfl

/-- A shared token of the required kind is taken by both parsers. -/
theorem Resumes.expect {t : Token} {kind : Kind} {f : Token → Parser γ} {f' : Token → Parser δ}
    (hkind : t.kind = kind) (h : Resumes last sequel tokens (f t) (f' t)) :
    Resumes last sequel (t :: tokens) (Parser.expect kind >>= f) (Parser.expect kind >>= f') :=
  h.silent (List.suffix_cons t tokens) (run_expect hkind) fun _ => run_expect hkind

/-- Parsers that run alike on the shared tokens resume each other alike. -/
theorem Resumes.congr {k : Parser α} {k' : Parser β} (h : Resumes last sequel tokens k k')
    (first : m.run (tokens ++ [last]) = k.run (tokens ++ [last]))
    (second : ∀ others, m'.run (tokens ++ others) = k'.run (tokens ++ others)) :
    Resumes last sequel tokens m m' := by
  cases h with
  | inside nonempty suffix earlier first' second' =>
    exact .inside nonempty suffix earlier (first.trans first') fun others =>
      (second others).trans (second' others)
  | atEnd h =>
    refine .atEnd ⟨?_, ?_, h.earlier, h.completing, fun others => ?_, ?_⟩
    · exact (congrArg Reported.state first).trans h.stays
    · exact (congrArg Reported.diagnostics first).trans h.reports
    · exact second others ▸ h.starts others
    · exact fun filled others => second (filled ++ others) ▸ h.completed filled others

/-- Where both parsers decide alike, they resume each other if the parts do. -/
theorem Resumes.ite {c : Prop} [Decidable c] {k : Parser α} {k' : Parser β}
    (yes : c → Resumes last sequel tokens m m') (no : ¬c → Resumes last sequel tokens k k') :
    Resumes last sequel tokens (if c then m else k) (if c then m' else k') := by
  split
  next h => exact yes h
  next h => exact no h

/-- Bare results come to the end where there is nothing else. -/
theorem atEnd_pure (last : Token) (sequel : List Kind) (a : α) (a' : β) :
    AtEnd last sequel [] [] [] (Pure.pure a : Parser α) (Pure.pure a' : Parser β) :=
  atEnd_of_silent rfl fun _ _ => ⟨a', rfl⟩

/-- Bare results resume each other. -/
theorem resumes_pure (a : α) (a' : β) (tokens : List Token) :
    Resumes last sequel tokens (Pure.pure a : Parser α) (Pure.pure a' : Parser β) := by
  cases tokens with
  | nil => exact .atEnd (atEnd_pure last sequel a a')
  | cons t tokens =>
    exact .inside (List.cons_ne_nil t tokens) (List.suffix_refl _) (List.forall_mem_nil _) rfl
      fun _ => rfl

/-- Bare results resume each other everywhere. -/
theorem resumable_pure (a : α) (a' : β) :
    Resumable last sequel [] most (Pure.pure a : Parser α) (Pure.pure a' : Parser β) :=
  ⟨atEnd_pure last sequel a a', fun tokens _ _ _ => resumes_pure a a' tokens⟩

/-- At the end alone, what is missing is all that there is to report. -/
theorem Resumable.resumes_of_length_le (h : Resumable last sequel kinds most m m')
    (few : tokens.length ≤ most) (inside : ∀ t ∈ tokens, t.kind ≠ .eof) :
    Resumes last sequel tokens m m' := by
  by_cases nonempty : tokens = []
  · subst nonempty
    exact .atEnd h.waits
  · exact h.resumes tokens nonempty few inside

/-- Sequences resume each other everywhere if both of their steps do. -/
theorem Resumable.bind (h : Resumable last sequel kinds most m m')
    (h' : ∀ a a', Resumable last sequel' kinds' most (f a) (f' a'))
    (leads : ∀ kind ∈ leading kinds' sequel', kind ∈ sequel) :
    Resumable last sequel' (kinds ++ kinds') most (m >>= f) (m' >>= f') := by
  have waits : ∀ a a', AtEnd last sequel' [] [] kinds' (f a) (f' a') := fun a a' => (h' a a').waits
  refine ⟨h.waits.bind waits leads, fun tokens nonempty few inside => ?_⟩
  refine (h.resumes tokens nonempty few inside).bind waits leads ?_
  intro a a' front nonempty' suffix
  have shorter := suffix.length_le
  exact (h' a a').resumes front nonempty' (by omega) fun t ht => inside t (suffix.subset ht)

/-- Parsers resume each other alike with what is made of their results. -/
theorem Resumable.map (h : Resumable last sequel kinds most m m') (g : α → γ) (g' : β → δ) :
    Resumable last sequel kinds most (m >>= fun a => Pure.pure (g a))
      (m' >>= fun a => Pure.pure (g' a)) := by
  have whole := h.bind (fun a a' => resumable_pure (g a) (g' a')) fun _ hkind => hkind
  rwa [List.append_nil] at whole

/-- Fewer kinds may follow, too. -/
theorem AtEnd.mono (h : AtEnd last sequel tokens ds kinds m m')
    (fewer : ∀ kind ∈ sequel', kind ∈ sequel) : AtEnd last sequel' tokens ds kinds m m' :=
  ⟨h.stays, h.reports, h.earlier, h.completing, h.starts, fun filled others fills follows =>
    h.completed filled others fills (fewer _ follows)⟩

/-- Fewer kinds may follow, too. -/
theorem Resumes.mono (h : Resumes last sequel tokens m m')
    (fewer : ∀ kind ∈ sequel', kind ∈ sequel) : Resumes last sequel' tokens m m' := by
  cases h with
  | inside nonempty suffix earlier first second =>
    exact .inside nonempty suffix earlier first second
  | atEnd h => exact .atEnd (h.mono fewer)

/-- A token that is required is taken, missed in front of a shared token or missed
at the end. -/
theorem resumable_expect (ends : last.kind = .eof) {kind : Kind}
    (lacking : kind ∈ Kind.completing) :
    Resumable last sequel [kind] most (expect kind) (expect kind) := by
  have other : last.kind ≠ kind := by
    rw [ends]
    rintro rfl
    revert lacking
    decide
  refine ⟨⟨?_, ?_, ?_, ?_, ?_, ?_⟩, fun tokens nonempty _ inside => ?_⟩
  · simp [Parser.expect, current, other]
  · simp [Parser.expect, current, other, endReports]
  · exact List.forall_mem_nil _
  · exact List.forall_mem_singleton.2 lacking
  · exact fun _ => List.nil_prefix
  · intro filled others fills _
    obtain ⟨t, rfl, hkind⟩ := List.map_eq_singleton_iff.1 fills
    simp [run_expect hkind]
  · obtain ⟨t, tokens, rfl⟩ := List.exists_cons_of_ne_nil nonempty
    have here := inside t List.mem_cons_self
    by_cases hkind : t.kind = kind
    · rw [← bind_pure (Parser.expect kind)]
      exact .expect hkind (resumes_pure t t tokens)
    · have missed (others : List Token) : (Parser.expect kind).run (t :: tokens ++ others) =
          ⟨.missing kind t.span.start, t :: tokens ++ others,
            [⟨.unexpectedToken t.kind kind, t.span⟩]⟩ := by
        simp [Parser.expect, hkind]
      have earlier : Diagnostic.isUnexpectedEnd ⟨.unexpectedToken t.kind kind, t.span⟩ = false := by
        simp [here]
      exact .inside nonempty (List.suffix_refl _) (List.forall_mem_singleton.2 earlier)
        (missed [last]) missed

end Parser

end Scriptlet.Syntax
