import Scriptlet.Proofs.Parsing.Complete
import Scriptlet.Proofs.Recovery.Grammar

/-!
# Incomplete texts are those that can be completed

A text that is continued on a further line is scanned and parsed as before up to its
end. What is reported there about anything else than the end is reported again,
whatever is added. If nothing of that sort is reported, the tokens that are missed
at the end complete the text.
-/

namespace Scriptlet.Syntax

open Reporting

namespace Parser

variable {last : Token} {tokens : List Token} {fuel fuel' : Nat}

/-- The reports of a submission are those of its statement, and one more if the end
is not behind it. -/
theorem script_diagnostics (fuel : Nat) (tokens : List Token) :
    ((script fuel).run tokens).diagnostics = ((statement fuel).run tokens).diagnostics ++
      ((expect .eof).run ((statement fuel).run tokens).state).diagnostics := by
  simp [script]

/-- The statement of a submission goes on behind the tokens in front of the end. -/
theorem resumes_statement (ends : last.kind = .eof) (inside : ∀ t ∈ tokens, t.kind ≠ .eof)
    (enough : 4 * (tokens.length + 1) + 4 ≤ fuel)
    (enough' : 4 * (tokens.length + 1) + 4 ≤ fuel') :
    Resumes last Kind.stopping tokens (statement fuel) (statement fuel') := by
  have whole := resumable_statement ends fuel fuel' tokens.length enough enough'
  exact whole.resumes_of_length_le (Nat.le_refl _) inside

/-- What is reported for a submission about anything else than its end is reported
again if other tokens stand in place of the end. -/
theorem mem_script_diagnostics (ends : last.kind = .eof) (inside : ∀ t ∈ tokens, t.kind ≠ .eof)
    (enough : 4 * (tokens.length + 1) + 4 ≤ fuel) {d : Diagnostic}
    (reported : d ∈ ((script fuel).run (tokens ++ [last])).diagnostics)
    (earlier : d.isUnexpectedEnd = false)
    (enough' : 4 * (tokens.length + 1) + 4 ≤ fuel') (others : List Token) :
    d ∈ ((script fuel').run (tokens ++ others)).diagnostics := by
  rw [script_diagnostics] at reported ⊢
  cases resumes_statement ends inside enough enough' with
  | @inside front ds s s' nonempty suffix _ first second =>
    obtain ⟨t, front, rfl⟩ := List.exists_cons_of_ne_nil nonempty
    have stays : t.kind ≠ .eof := inside t (suffix.subset List.mem_cons_self)
    rw [first] at reported
    rw [second]
    simpa [expect, stays] using reported
  | @atEnd ds kinds h =>
    rw [h.stays, h.reports, run_expect ends, List.append_nil, List.mem_append] at reported
    have missed := reported.resolve_right fun missed =>
      Bool.noConfusion (earlier.symm.trans (isUnexpectedEnd_endReports ends d missed))
    exact List.mem_append_left _ ((h.starts others).subset missed)

/-- If nothing but an early end is reported for a submission, its statement comes to
the end with no other reports than those. -/
theorem exists_atEnd (ends : last.kind = .eof) (inside : ∀ t ∈ tokens, t.kind ≠ .eof)
    (enough : 4 * (tokens.length + 1) + 4 ≤ fuel)
    (missed : ∀ d ∈ ((script fuel).run (tokens ++ [last])).diagnostics, d.isUnexpectedEnd = true)
    (enough' : 4 * (tokens.length + 1) + 4 ≤ fuel') :
    ∃ kinds, AtEnd last Kind.stopping tokens [] kinds (statement fuel) (statement fuel') := by
  rw [script_diagnostics] at missed
  cases resumes_statement ends inside enough enough' with
  | @inside front ds s s' nonempty suffix _ first =>
    -- the token in front of which the statement stops is reported in place of the end
    obtain ⟨t, front, rfl⟩ := List.exists_cons_of_ne_nil nonempty
    have stays : t.kind ≠ .eof := inside t (suffix.subset List.mem_cons_self)
    rw [first] at missed
    have wrong := missed ⟨.unexpectedToken t.kind .eof, t.span⟩ (by simp [expect, stays])
    rw [isUnexpectedEnd_unexpectedToken, decide_eq_true_iff] at wrong
    exact absurd wrong stays
  | @atEnd ds kinds h =>
    have empty : ds = [] := by
      refine List.eq_nil_iff_forall_not_mem.2 fun d hd => ?_
      have ended := missed d (by rw [h.reports]; simp [hd])
      exact Bool.noConfusion ((h.earlier d hd).symm.trans ended)
    subst empty
    exact ⟨kinds, h⟩

/-- If nothing but an early end is reported for a submission, tokens are missed
there, and nothing is reported if they are filled in. -/
theorem exists_completing (ends : last.kind = .eof) (inside : ∀ t ∈ tokens, t.kind ≠ .eof)
    (enough : 4 * (tokens.length + 1) + 4 ≤ fuel)
    (missed : ∀ d ∈ ((script fuel).run (tokens ++ [last])).diagnostics, d.isUnexpectedEnd = true) :
    ∃ kinds, (∀ kind ∈ kinds, kind ∈ Kind.completing) ∧
      ∀ fuel' filled last', 4 * (tokens.length + 1) + 4 ≤ fuel' → filled.map Token.kind = kinds →
        last'.kind = .eof →
          ((script fuel').run (tokens ++ (filled ++ [last']))).diagnostics = [] := by
  obtain ⟨kinds, h⟩ := exists_atEnd ends inside enough missed enough
  refine ⟨kinds, h.completing, fun fuel' filled last' enough' fills ends' => ?_⟩
  obtain ⟨kinds', h'⟩ := exists_atEnd ends inside enough missed enough'
  obtain rfl : kinds = kinds' := endReports_inj (h.reports.symm.trans h'.reports)
  have stops : last'.kind ∈ Kind.stopping := by rw [ends']; decide
  obtain ⟨state, silent⟩ := h'.completed filled [last'] fills stops
  rw [script_diagnostics, state, silent, run_expect ends', List.append_nil]

end Parser

namespace Source

open Scriptlet.Syntax.Parser

variable {text : String}

/-- Nothing that is reported for a text before it is parsed is about its end. -/
theorem isUnexpectedEnd_tokenize (text : String) :
    ∀ d ∈ (tokenize text).diagnostics, d.isUnexpectedEnd = false := by
  intro d hd
  obtain ⟨-, ⟨c, -, same⟩ | ⟨t, -, blamed⟩⟩ := (Scan.covers_scanFrom 0 text.toList).reports d hd
  · rw [same]
    rfl
  · rw [Diagnostic.isUnexpectedEnd]
    rcases blamed.problem with ⟨problem, -⟩ | ⟨problem, -⟩ <;> rw [problem] <;> rfl

/-- The scan of what stands on the line behind a text. -/
def behind (text w : String) : Scan := Scan.scanFrom 0 (Text.width text.toList + 1) w.toList

/-- A text whose literals are closed is scanned as before if it is continued on a
further line. -/
theorem tokenize_continued
    (closed : ∀ d ∈ (tokenize text).diagnostics, d.problem ≠ .unterminatedString) (w : String) :
    tokenize (text ++ "\n" ++ w) = (tokenize text).followedBy (behind text w) := by
  have split : (text ++ "\n" ++ w).toList = text.toList ++ '\n' :: w.toList := by simp
  have scanned := Scan.scanFrom_lineFeed 0 text.toList w.toList closed
  rw [Nat.zero_add] at scanned
  rw [tokenize, split, scanned]
  rfl

/-- The reports for a text are those of its scan and those of its submission. -/
theorem diagnostics_ofText (text : String) : (ofText text).diagnostics =
    (tokenize text).diagnostics ++ ((Parser.script (4 * (tokenize text).tokens.length + 4)).run
      (tokenize text).tokens).diagnostics := by
  rw [ofText, parse, (whole_tokenize text).terminated_eq]

/-- The tokens of a scan are some that are no ends, and one end. -/
theorem exists_tokens (position : Nat) (cs : List Char) : ∃ inner last,
    (Scan.scanFrom 0 position cs).tokens = inner ++ [last] ∧ last.kind = .eof ∧
      ∀ t ∈ inner, t.kind ≠ .eof := by
  obtain ⟨inner, htokens, hinner⟩ := (Scan.covers_scanFrom position cs).ends
  exact ⟨inner, _, htokens, rfl, fun t ht => (hinner t ht).1⟩

/-- What is reported for a text whose literals are closed about anything else than
its end is reported again if it is continued on a further line. -/
theorem mem_diagnostics_continued
    (closed : ∀ d ∈ (ofText text).diagnostics, d.problem ≠ .unterminatedString) {d : Diagnostic}
    (reported : d ∈ (ofText text).diagnostics) (earlier : d.isUnexpectedEnd = false) (w : String) :
    d ∈ (ofText (text ++ "\n" ++ w)).diagnostics := by
  rw [diagnostics_ofText] at closed reported
  rw [diagnostics_ofText, tokenize_continued fun d hd => closed d (List.mem_append_left _ hd)]
  obtain ⟨inner, last, tokens, ends, inside⟩ := exists_tokens 0 text.toList
  have nonempty := List.length_pos_iff.2
    (Scan.tokens_scanFrom_ne_nil (Text.width text.toList + 1) w.toList)
  rw [List.mem_append] at reported
  rcases reported with reported | reported
  · exact List.mem_append_left _ (List.mem_append_left _ reported)
  · refine List.mem_append_right _ ?_
    rw [tokenize, tokens] at reported
    rw [Scan.followedBy, tokenize, tokens, List.dropLast_concat]
    refine mem_script_diagnostics ends inside ?_ reported earlier ?_ _
    · simp
    · simp only [behind, List.length_append]
      omega

/-- A text that merely ends too early is completed on a further line by what is
missed at its end. -/
theorem exists_completion
    (closed : ∀ d ∈ (ofText text).diagnostics, d.problem ≠ .unterminatedString)
    (missed : ∀ d ∈ (ofText text).diagnostics, d.isUnexpectedEnd = true) :
    ∃ w, (ofText (text ++ "\n" ++ w)).diagnostics = [] := by
  rw [diagnostics_ofText] at closed missed
  obtain ⟨missedFirst, missedBehind⟩ := List.forall_mem_append.1 missed
  have scanned : (tokenize text).diagnostics = [] := by
    refine List.eq_nil_iff_forall_not_mem.2 fun d hd => ?_
    exact Bool.noConfusion ((isUnexpectedEnd_tokenize text d hd).symm.trans (missedFirst d hd))
  obtain ⟨inner, last, tokens, ends, inside⟩ := exists_tokens 0 text.toList
  have enough : 4 * (inner.length + 1) + 4 ≤ 4 * (tokenize text).tokens.length + 4 := by
    simp [tokenize, tokens]
  have submission := exists_completing ends inside enough (by rwa [← tokens])
  obtain ⟨kinds, completing, silent⟩ := submission
  obtain ⟨filled, stop, fills, filling⟩ := Scan.exists_scanFrom_fillers completing
    (Text.width text.toList + 1)
  refine ⟨String.ofList (Kind.fillers kinds), ?_⟩
  have added : behind text (String.ofList (Kind.fillers kinds)) =
      ⟨filled ++ [Scan.endOfFile stop], []⟩ := by
    rw [behind, String.toList_ofList, filling]
  rw [diagnostics_ofText, tokenize_continued fun d hd => closed d (List.mem_append_left _ hd),
    added, Scan.followedBy, scanned, List.append_nil, List.nil_append, tokenize, tokens,
    List.dropLast_concat]
  refine silent _ filled (Scan.endOfFile stop) ?_ fills rfl
  simp only [List.length_append, List.length_singleton]
  omega

/-- If all literals of a text are closed, it is incomplete if and only if something
is reported for it and nothing is for some continuation on a further line. -/
theorem isIncomplete_iff_exists_completion (text : String)
    (closed : ∀ d ∈ (ofText text).diagnostics, d.problem ≠ .unterminatedString) :
    (ofText text).isIncomplete = true ↔
      (ofText text).diagnostics ≠ [] ∧ ∃ w, (ofText (text ++ "\n" ++ w)).diagnostics = [] := by
  rw [isIncomplete, Bool.and_eq_true, Bool.not_eq_true', List.isEmpty_eq_false_iff,
    List.all_eq_true]
  refine and_congr_right fun _ => ⟨exists_completion closed, ?_⟩
  rintro ⟨w, clean⟩ d reported
  by_contra earlier
  have again := mem_diagnostics_continued closed reported (Bool.eq_false_iff.2 earlier) w
  rw [clean] at again
  cases again

/-- A block that breaks off among the arguments of a call can be completed, and a
number behind another one stays wrong. -/
theorem exists_completion_of_call :
    (∀ d ∈ (ofText "\x7b print(1 +").diagnostics, d.problem ≠ .unterminatedString) ∧
      (∃ w, (ofText ("\x7b print(1 +" ++ "\n" ++ w)).diagnostics = []) ∧
      (∀ d ∈ (ofText "1 2").diagnostics, d.problem ≠ .unterminatedString) ∧
      ¬∃ w, (ofText ("1 2" ++ "\n" ++ w)).diagnostics = [] := by
  have closed : ∀ d ∈ (ofText "\x7b print(1 +").diagnostics, d.problem ≠ .unterminatedString := by
    decide
  have closed' : ∀ d ∈ (ofText "1 2").diagnostics, d.problem ≠ .unterminatedString := by decide
  have incomplete : (ofText "\x7b print(1 +").isIncomplete = true := by decide
  have wrong : ¬(ofText "1 2").isIncomplete = true := by decide
  have reported : (ofText "1 2").diagnostics ≠ [] := by decide
  refine ⟨closed, ((isIncomplete_iff_exists_completion _ closed).1 incomplete).2, closed', ?_⟩
  exact fun completed =>
    wrong ((isIncomplete_iff_exists_completion _ closed').2 ⟨reported, completed⟩)

end Source

end Scriptlet.Syntax
