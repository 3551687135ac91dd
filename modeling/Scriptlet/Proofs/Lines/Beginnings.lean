import Scriptlet.Proofs.Scanning.Continuing
import Scriptlet.Proofs.Spans.Boundaries

/-!
# What is reported begins at a character

Tokens and stray characters begin at a character that is not blank, and the end of a text
has no character behind it. So do the nodes of the tree and all that is reported about
them, since each of these begins where a token does.
-/

namespace Scriptlet

/-- The place begins in front of a character of a source that is not blank, or at its
end. -/
def Span.Begins (source : List Char) (span : Span) : Prop :=
  ∃ before after, source = before ++ after ∧ span.start = Text.width before ∧
    ∀ c ∈ after.head?, Text.isBlank c = false

/-- What covers two places begins where one of them does. -/
theorem Span.extends_begins (source : List Char) : Span.Extends (Span.Begins source) where
  empty h := h
  cover {span span'} h h' := by
    rcases Nat.le_total span.start span'.start with hle | hle
    · rwa [Span.Begins, Span.cover, Nat.min_eq_left hle]
    · rwa [Span.Begins, Span.cover, Nat.min_eq_right hle]

namespace Scan

variable {source : List Char}

/-- Blanks make no token and are not reported, so all that a scan finds begins at another
character. -/
theorem begins_scanFrom {position : Nat} {before cs : List Char} (split : source = before ++ cs)
    (width : position = Text.width before) :
    (∀ t ∈ (scanFrom 0 position cs).tokens, t.span.Begins source) ∧
      ∀ d ∈ (scanFrom 0 position cs).diagnostics, d.span.Begins source := by
  induction position, cs using scanFrom_induction generalizing before with
  | ends position =>
    exact ⟨List.forall_mem_singleton.2 ⟨before, [], split, width, nofun⟩, List.forall_mem_nil _⟩
  | stray position c cs first ih =>
    have further : position + c.utf8Size = Text.width (before ++ [c]) := by simp [width]
    obtain ⟨tokens, reports⟩ := ih (split.trans (List.append_cons before c cs)) further
    have stray := Pattern.first?_eq_none_iff.1 first
    simp only [Pattern.isStray, Bool.not_eq_true', Bool.or_eq_false_iff] at stray
    have here : ∀ d ∈ (c :: cs).head?, Text.isBlank d = false := fun d hd =>
      Option.some.inj hd ▸ stray.1.2
    exact ⟨tokens, List.forall_mem_cons.2 ⟨⟨before, c :: cs, split, width, here⟩, reports⟩⟩
  | front position p lexeme rest isLexeme first ih =>
    have further : position + Text.width lexeme = Text.width (before ++ lexeme) := by simp [width]
    obtain ⟨tokens, reports⟩ :=
      ih (split.trans (List.append_assoc before lexeme rest).symm) further
    have here (made : p ≠ .blanks) :
        Span.Begins source ⟨position, position + Text.width lexeme⟩ := by
      refine ⟨before, lexeme ++ rest, split, width, fun c hc => ?_⟩
      obtain ⟨cs, begins⟩ := List.head?_eq_some_iff.1 hc
      rw [begins] at first
      by_contra blank
      rw [Pattern.first?_blank ((Bool.not_eq_false _).mp blank)] at first
      exact made (Prod.mk.inj (Option.some.inj first)).1.symm
    constructor
    · refine List.forall_mem_append.2 ⟨fun t made => ?_, tokens⟩
      have made := Option.mem_toList.1 made
      rw [(Pattern.token?_eq_some made).2.1]
      refine here ?_
      rintro rfl
      cases made
    · refine List.forall_mem_append.2 ⟨fun d made => ?_, reports⟩
      obtain ⟨problem, found, rfl⟩ := Option.map_eq_some_iff.1 (Option.mem_toList.1 made)
      refine here ?_
      rintro rfl
      cases found

end Scan

/-- Whatever is wrong with a text, behind whatever submissions, is reported at a place that
begins in front of a character that is not blank, or at the end of the text. -/
theorem Submission.diagnostics_begin (text : String) (earlier : List Submission) (nextId : Nat) :
    ∀ d ∈ (compile earlier nextId (Syntax.Source.ofText text)).1.diagnostics,
      d.span.Begins text.toList := by
  have scanned := Scan.begins_scanFrom (List.nil_append text.toList).symm Text.width_nil.symm
  obtain ⟨nodes, parsed⟩ := Syntax.parse_places (Span.extends_begins text.toList)
    (Syntax.whole_tokenize text) scanned.1
  intro d hd
  rw [diagnostics, List.mem_append] at hd
  rcases hd with hd | hd
  · rcases List.mem_append.1 hd with hd | hd
    · exact scanned.2 d hd
    · exact parsed d hd
  · exact Syntax.Stmt.closed_resolve (Resolving.closed_reportsAt _) _ nodes.2.1 _ d hd

end Scriptlet
