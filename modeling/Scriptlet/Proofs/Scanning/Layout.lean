import Scriptlet.Proofs.Scanning.Lexemes

/-!
# Scanning loses nothing

A scanned text is laid out as its tokens, one behind the other, with gaps in
front of each of them and behind the last. A token is the text at its span. A
gap holds blanks, comments up to the end of their lines and stray characters,
and each of these is reported where it stands. Besides them, only numbers and
literals are reported, and what stands first is reported first.
-/

namespace Scriptlet

/-- The span marks a text inside of a source. -/
def Span.Cuts (span : Span) (source text : List Char) : Prop :=
  ∃ before after, source = before ++ (text ++ after) ∧
    span = ⟨Text.width before, Text.width (before ++ text)⟩

namespace Scan

/-- The report is about a number that denotes no value or a literal that is not
closed, and the token is that number or literal. -/
structure Blames (d : Diagnostic) (t : Token) : Prop where
  span : d.span = t.span
  problem : d.problem = .invalidNumber t.text .int ∧ t.kind = .number ∨
    d.problem = .unterminatedString ∧ t.kind = .string

/-- A stretch of a source without tokens, from one position to another, with
what follows it and what is reported in it. -/
inductive Gap : (start stop : Nat) → (stretch following : List Char) → List Diagnostic → Prop where
  | nil (position : Nat) (following : List Char) : Gap position position [] following []
  | blank {start stop : Nat} {c : Char} {cs following : List Char} {ds : List Diagnostic}
      (separates : Text.isBlank c = true) (others : Gap (start + c.utf8Size) stop cs following ds) :
      Gap start stop (c :: cs) following ds
  | comment {start stop : Nat} {line cs following : List Char} {ds : List Diagnostic}
      (inLine : ∀ c ∈ line, c ≠ '\n') (ends : ∀ c ∈ (cs ++ following).head?, c = '\n')
      (others : Gap (start + Text.width ('/' :: '/' :: line)) stop cs following ds) :
      Gap start stop ('/' :: '/' :: line ++ cs) following ds
  | stray {start stop : Nat} {c : Char} {cs following : List Char} {ds : List Diagnostic}
      (beginsNothing : Pattern.isStray c = true)
      (others : Gap (start + c.utf8Size) stop cs following ds) :
      Gap start stop (c :: cs) following (.badCharacter start c :: ds)

/-- A scan accounts for a source from a position on: gaps and tokens follow each
other up to the end of the source, and only stray characters and tokens are
reported, in their order. -/
inductive Covers : (position : Nat) → (source : List Char) → Scan → Prop where
  | last {position stop : Nat} {stretch : List Char} {ds : List Diagnostic}
      (gap : Gap position stop stretch [] ds) : Covers position stretch ⟨[endOfFile stop], ds⟩
  | token {position : Nat} {stretch source : List Char} {ds : List Diagnostic} {t : Token}
      {d? : Option Diagnostic} {scan : Scan}
      (gap : Gap position t.span.start stretch (t.text.toList ++ source) ds)
      (placed : t.span.stop = t.span.start + Text.width t.text.toList)
      (nonempty : t.text ≠ "") (inside : t.kind ≠ .eof) (present : t.isMissing = false)
      (blames : ∀ d ∈ d?, Blames d t) (others : Covers t.span.stop source scan) :
      Covers position (stretch ++ (t.text.toList ++ source))
        ⟨t :: scan.tokens, ds ++ (d?.toList ++ scan.diagnostics)⟩

variable {position start stop : Nat} {c : Char} {cs source stretch following : List Char}
  {ds : List Diagnostic} {scan : Scan}

/-- A blank stands in front of a gap. -/
theorem Covers.blank (separates : Text.isBlank c = true)
    (h : Covers (position + c.utf8Size) source scan) : Covers position (c :: source) scan := by
  cases h with
  | last gap => exact .last (.blank separates gap)
  | token gap placed nonempty inside present blames others =>
    exact .token (.blank separates gap) placed nonempty inside present blames others

/-- Blanks stand in front of a gap. -/
theorem Covers.blanks (separates : ∀ c ∈ cs, Text.isBlank c = true)
    (h : Covers (position + Text.width cs) source scan) : Covers position (cs ++ source) scan := by
  induction cs generalizing position with
  | nil => exact h
  | cons c cs ih =>
    rw [List.forall_mem_cons] at separates
    rw [Text.width_cons, ← Nat.add_assoc] at h
    exact (ih separates.2 h).blank separates.1

/-- A comment stands in front of a gap. -/
theorem Covers.comment (inLine : ∀ c ∈ cs, c ≠ '\n') (ends : ∀ c ∈ source.head?, c = '\n')
    (h : Covers (position + Text.width ('/' :: '/' :: cs)) source scan) :
    Covers position ('/' :: '/' :: cs ++ source) scan := by
  cases h with
  | last gap => exact .last (.comment inLine (by rwa [List.append_nil]) gap)
  | token gap placed nonempty inside present blames others =>
    rw [← List.append_assoc]
    exact .token (.comment inLine ends gap) placed nonempty inside present blames others

/-- A stray character stands in front of a gap. -/
theorem Covers.stray (beginsNothing : Pattern.isStray c = true)
    (h : Covers (position + c.utf8Size) source scan) :
    Covers position (c :: source) (cons none (some (.badCharacter position c)) scan) := by
  cases h with
  | last gap => exact .last (.stray beginsNothing gap)
  | token gap placed nonempty inside present blames others =>
    exact .token (.stray beginsNothing gap) placed nonempty inside present blames others

/-- A token stands behind a gap without characters. -/
theorem Covers.front {t : Token} {d? : Option Diagnostic}
    (span : t.span = ⟨position, position + Text.width t.text.toList⟩) (nonempty : t.text ≠ "")
    (inside : t.kind ≠ .eof) (present : t.isMissing = false) (blames : ∀ d ∈ d?, Blames d t)
    (h : Covers t.span.stop source scan) :
    Covers position (t.text.toList ++ source) (cons (some t) d? scan) := by
  have placed : t.span.stop = t.span.start + Text.width t.text.toList := by rw [span]
  have gap : Gap position t.span.start [] (t.text.toList ++ source) [] := by
    rw [span]
    exact .nil position _
  exact .token gap placed nonempty inside present blames h

end Scan

namespace Pattern

variable {p : Pattern} {lexeme rest : List Char} {span : Span} {t : Token}

/-- A lexeme has a character. -/
theorem Lexeme.ne_nil (h : p.Lexeme lexeme rest) : lexeme ≠ [] := by
  cases h with
  | fixed spelled => exact Kind.spelling_ne_nil spelled
  | word | digits | blanks | closedString | openString | comment => exact List.cons_ne_nil _ _

/-- A token has the text and the place of its lexeme. -/
theorem token?_eq_some (h : p.token? lexeme span = some t) :
    t.text.toList = lexeme ∧ t.span = span ∧ t.isMissing = false := by
  cases p <;> simp only [token?, Option.some.injEq, reduceCtorEq] at h <;> subst h <;>
    exact ⟨String.toList_ofList, rfl, rfl⟩

/-- The kind of a word is never that of the end. -/
theorem ofWord_ne_eof (word : List Char) : Kind.ofWord word ≠ .eof := by
  rw [Kind.ofWord]
  cases found : Kind.keywords.find? fun k => k.spelling? == some word with
  | none => decide
  | some k =>
    intro ends
    have mem := List.mem_of_find?_eq_some found
    rw [Option.getD_some] at ends
    subst ends
    revert mem
    decide

/-- No lexeme makes a token of the end. -/
theorem Lexeme.kind_ne_eof (h : p.Lexeme lexeme rest) (made : p.token? lexeme span = some t) :
    t.kind ≠ .eof := by
  cases h with
  | blanks | comment => cases made
  | word =>
    obtain rfl := Option.some.inj made
    exact ofWord_ne_eof _
  | digits | closedString | openString =>
    obtain rfl := Option.some.inj made
    exact nofun
  | fixed spelled =>
    obtain rfl := Option.some.inj made
    intro ends
    subst ends
    cases spelled

/-- What is wrong with a lexeme is wrong with its token. -/
theorem blames_of_problem? {problem : Problem} (made : p.token? lexeme span = some t)
    (wrong : p.problem? lexeme = some problem) : Scan.Blames ⟨problem, span⟩ t := by
  cases p with
  | digits =>
    obtain rfl := Option.some.inj made
    rw [problem?] at wrong
    split at wrong
    · cases wrong
    · obtain rfl := Option.some.inj wrong
      exact ⟨rfl, .inl ⟨rfl, rfl⟩⟩
  | openString =>
    obtain rfl := Option.some.inj made
    obtain rfl := Option.some.inj wrong
    exact ⟨rfl, .inr ⟨rfl, rfl⟩⟩
  | _ => cases wrong

end Pattern

namespace Scan

variable {position start stop : Nat} {c : Char} {cs source stretch following : List Char}
  {ds : List Diagnostic} {scan : Scan}

/-- The scan of a text that begins with a lexeme goes on behind it. -/
theorem scanFrom_lexeme {p : Pattern} {lexeme rest : List Char}
    (first : Pattern.first? (lexeme ++ rest) = some (p, lexeme.length)) (nonempty : lexeme ≠ []) :
    scanFrom 0 position (lexeme ++ rest) =
      cons (p.token? lexeme ⟨position, position + Text.width lexeme⟩)
        ((p.problem? lexeme).map (⟨·, ⟨position, position + Text.width lexeme⟩⟩))
        (scanFrom 0 (position + Text.width lexeme) rest) := by
  cases lexeme with
  | nil => exact absurd rfl nonempty
  | cons c cs =>
    rw [List.cons_append] at first ⊢
    rw [scanFrom, first]
    simp [scanFrom_skip cs.length, Nat.add_assoc]

/-- A lexeme stands in front of what its scan accounts for. -/
theorem Covers.lexeme {p : Pattern} {lexeme : List Char} (h : p.Lexeme lexeme source)
    (covers : Covers (position + Text.width lexeme) source scan) :
    Covers position (lexeme ++ source)
      (cons (p.token? lexeme ⟨position, position + Text.width lexeme⟩)
        ((p.problem? lexeme).map (⟨·, ⟨position, position + Text.width lexeme⟩⟩)) scan) := by
  cases made : p.token? lexeme ⟨position, position + Text.width lexeme⟩ with
  | none =>
    cases h with
    | blanks starts goesOn => exact covers.blanks (List.forall_mem_cons.2 ⟨starts, goesOn⟩)
    | comment goesOn ends => exact covers.comment goesOn ends
    | word | digits | closedString | openString | fixed => cases made
  | some t =>
    obtain ⟨rfl, span, present⟩ := Pattern.token?_eq_some made
    refine .front span ?_ (h.kind_ne_eof made) present ?_ (span ▸ covers)
    · intro empty
      exact h.ne_nil (by rw [empty]; rfl)
    · intro d hd
      obtain ⟨problem, wrong, rfl⟩ := Option.map_eq_some_iff.1 hd
      exact Pattern.blames_of_problem? made wrong

/-- A scan goes from lexeme to lexeme. What holds of the scan of nothing and is kept
by a stray character and by a lexeme in front holds of every scan. -/
theorem scanFrom_induction {motive : Nat → List Char → Scan → Prop}
    (ends : ∀ position, motive position [] ⟨[endOfFile position], []⟩)
    (stray : ∀ (position : Nat) (c : Char) (cs : List Char), Pattern.first? (c :: cs) = none →
      motive (position + c.utf8Size) cs (scanFrom 0 (position + c.utf8Size) cs) →
      motive position (c :: cs)
        (cons none (some (.badCharacter position c)) (scanFrom 0 (position + c.utf8Size) cs)))
    (front : ∀ (position : Nat) (p : Pattern) (lexeme rest : List Char), p.Lexeme lexeme rest →
      Pattern.first? (lexeme ++ rest) = some (p, lexeme.length) →
      motive (position + Text.width lexeme) rest (scanFrom 0 (position + Text.width lexeme) rest) →
      motive position (lexeme ++ rest)
        (cons (p.token? lexeme ⟨position, position + Text.width lexeme⟩)
          ((p.problem? lexeme).map (⟨·, ⟨position, position + Text.width lexeme⟩⟩))
          (scanFrom 0 (position + Text.width lexeme) rest)))
    (position : Nat) (cs : List Char) : motive position cs (scanFrom 0 position cs) := by
  match cs with
  | [] => exact ends position
  | c :: cs =>
    cases first : Pattern.first? (c :: cs) with
    | none =>
      have others := scanFrom_induction ends stray front (position + c.utf8Size) cs
      rw [scanFrom, first]
      exact stray position c cs first others
    | some found =>
      obtain ⟨p, n⟩ := found
      obtain ⟨-, lexeme, rest, hsplit, rfl, isLexeme⟩ := Pattern.exists_of_first? first
      have shorter : rest.length < (c :: cs).length := by
        rw [hsplit, List.length_append]
        have positive := List.length_pos_iff.2 isLexeme.ne_nil
        omega
      rw [hsplit] at first ⊢
      rw [scanFrom_lexeme first isLexeme.ne_nil]
      exact front position p lexeme rest isLexeme first
        (scanFrom_induction ends stray front (position + Text.width lexeme) rest)
  termination_by cs.length
  decreasing_by
    · exact Nat.lt_succ_self cs.length
    · exact shorter

/-- A scan accounts for the characters that it scans. -/
theorem covers_scanFrom (position : Nat) (cs : List Char) :
    Covers position cs (scanFrom 0 position cs) := by
  induction position, cs using scanFrom_induction with
  | ends position => exact .last (.nil position [])
  | stray position c cs first others => exact others.stray (Pattern.first?_eq_none_iff.1 first)
  | front position p lexeme rest isLexeme _ others => exact .lexeme isLexeme others

/-- A gap is as wide as its characters. -/
theorem Gap.stop_eq (h : Gap start stop stretch following ds) :
    stop = start + Text.width stretch := by
  induction h with
  | nil => rfl
  | blank _ _ ih => rw [ih, Text.width_cons, Nat.add_assoc]
  | comment _ _ _ ih => rw [ih, Text.width_append, Nat.add_assoc]
  | stray _ _ ih => rw [ih, Text.width_cons, Nat.add_assoc]

/-- What is reported in a gap are stray characters inside of it. -/
theorem Gap.strays (h : Gap start stop stretch following ds) :
    ∀ d ∈ ds, (∃ c, Pattern.isStray c = true ∧ d = .badCharacter d.span.start c) ∧
      start ≤ d.span.start ∧ d.span.start < stop := by
  induction h with
  | nil => exact nofun
  | @blank start _ c _ _ _ _ _ ih =>
    intro d hd
    obtain ⟨stray, above, below⟩ := ih d hd
    exact ⟨stray, by omega, below⟩
  | comment _ _ _ ih =>
    intro d hd
    obtain ⟨stray, above, below⟩ := ih d hd
    exact ⟨stray, by omega, below⟩
  | @stray start stop c _ _ _ beginsNothing others ih =>
    rw [List.forall_mem_cons]
    have positive := c.utf8Size_pos
    have ends := others.stop_eq
    refine ⟨⟨⟨c, beginsNothing, rfl⟩, Nat.le_refl _, ?_⟩, fun d hd => ?_⟩
    · show start < stop
      omega
    · obtain ⟨stray, above, below⟩ := ih d hd
      exact ⟨stray, by omega, below⟩

/-- What stands first in a gap is reported first. -/
theorem Gap.increasing (h : Gap start stop stretch following ds) :
    ds.Pairwise fun d d' => d.span.start < d'.span.start := by
  induction h with
  | nil => exact .nil
  | blank _ _ ih => exact ih
  | comment _ _ _ ih => exact ih
  | @stray start _ c _ _ _ _ others ih =>
    refine .cons (fun d hd => ?_) ih
    have above := (others.strays d hd).2.1
    have positive := c.utf8Size_pos
    show start < d.span.start
    omega

/-- The tokens stand behind the position from which a scan accounts for them. -/
theorem Covers.le_start (h : Covers position source scan) :
    ∀ t ∈ scan.tokens, position ≤ t.span.start ∧ t.span.start ≤ t.span.stop := by
  induction h with
  | last gap =>
    have width := gap.stop_eq
    rw [List.forall_mem_singleton]
    exact ⟨by simp [endOfFile, Span.empty]; omega, Nat.le_refl _⟩
  | token gap placed _ _ _ _ _ ih =>
    have width := gap.stop_eq
    rw [List.forall_mem_cons]
    refine ⟨⟨by omega, by omega⟩, fun u hu => ?_⟩
    have behind := ih u hu
    omega

/-- Each token ends before the next one begins. -/
theorem Covers.pairwise (h : Covers position source scan) :
    scan.tokens.Pairwise fun t u => t.span.stop ≤ u.span.start := by
  induction h with
  | last => exact List.pairwise_singleton _ _
  | token _ _ _ _ _ _ others ih => exact .cons (fun u hu => (others.le_start u hu).1) ih

/-- Each token has the text at its span. -/
theorem Covers.cuts (h : Covers position source scan) {front : List Char}
    (behind : position = Text.width front) :
    ∀ t ∈ scan.tokens, t.span.Cuts (front ++ source) t.text.toList := by
  induction h generalizing front with
  | @last _ stop stretch _ gap =>
    have width := gap.stop_eq
    rw [List.forall_mem_singleton]
    refine ⟨front ++ stretch, [], by simp [endOfFile], ?_⟩
    simp [endOfFile, Span.empty, width, behind]
  | @token position stretch source _ t _ _ gap placed _ _ _ _ _ ih =>
    have width := gap.stop_eq
    have start : t.span.start = Text.width (front ++ stretch) := by
      rw [width, behind, Text.width_append]
    have stop : t.span.stop = Text.width (front ++ stretch ++ t.text.toList) := by
      rw [placed, start, ← Text.width_append]
    rw [List.forall_mem_cons]
    refine ⟨⟨front ++ stretch, source, by simp, ?_⟩, fun u hu => ?_⟩
    · rw [← start, ← stop]
    · have found := ih stop u hu
      rwa [List.append_assoc, List.append_assoc] at found

/-- Each report in a gap marks the text at its place. -/
theorem Gap.reports_cut (h : Gap start stop stretch following ds) {front : List Char}
    (behind : start = Text.width front) (rest : List Char) :
    ∀ d ∈ ds, ∃ text, d.span.Cuts (front ++ (stretch ++ rest)) text := by
  induction h generalizing front with
  | nil => exact nofun
  | @blank start _ c cs _ _ _ _ ih =>
    have others := @ih (front ++ [c]) (by simp [behind])
    simpa using others
  | @comment start _ line cs _ _ _ _ _ ih =>
    have others := @ih (front ++ '/' :: '/' :: line) (by simp [behind])
    simpa using others
  | @stray start _ c cs _ _ _ _ ih =>
    have others := @ih (front ++ [c]) (by simp [behind])
    refine List.forall_mem_cons.2 ⟨⟨[c], front, cs ++ rest, rfl, ?_⟩, by simpa using others⟩
    simp [Diagnostic.badCharacter, behind]

/-- Each report marks the text at its place. -/
theorem Covers.reports_cut (h : Covers position source scan) {front : List Char}
    (behind : position = Text.width front) :
    ∀ d ∈ scan.diagnostics, ∃ text, d.span.Cuts (front ++ source) text := by
  induction h generalizing front with
  | last gap => simpa using gap.reports_cut behind []
  | @token position stretch source _ t _ _ gap placed _ _ _ blames _ ih =>
    have width := gap.stop_eq
    have start : t.span.start = Text.width (front ++ stretch) := by
      rw [width, behind, Text.width_append]
    have stop : t.span.stop = Text.width (front ++ stretch ++ t.text.toList) := by
      rw [placed, start, ← Text.width_append]
    have others := ih stop
    intro d hd
    rw [List.mem_append, List.mem_append, Option.mem_toList] at hd
    rcases hd with hd | hd | hd
    · exact gap.reports_cut behind _ d hd
    · refine ⟨t.text.toList, front ++ stretch, source, by simp, ?_⟩
      rw [(blames d hd).span, ← start, ← stop]
    · simpa using others d hd

/-- The tokens end in the end of the source, and each of the others has a text. -/
theorem Covers.ends (h : Covers position source scan) :
    ∃ inner, scan.tokens = inner ++ [endOfFile (position + Text.width source)] ∧
      ∀ t ∈ inner, t.kind ≠ .eof ∧ t.text ≠ "" ∧ t.isMissing = false := by
  induction h with
  | last gap => exact ⟨[], by rw [gap.stop_eq]; rfl, nofun⟩
  | @token _ _ _ _ t _ _ gap placed nonempty inside present _ _ ih =>
    obtain ⟨inner, htokens, hinner⟩ := ih
    have width := gap.stop_eq
    refine ⟨t :: inner, ?_, List.forall_mem_cons.2 ⟨⟨inside, nonempty, present⟩, hinner⟩⟩
    simp only [htokens, placed, width, Text.width_append, Nat.add_assoc, List.cons_append]

/-- What is reported are stray characters and tokens behind the position. -/
theorem Covers.reports (h : Covers position source scan) :
    ∀ d ∈ scan.diagnostics, position ≤ d.span.start ∧
      ((∃ c, Pattern.isStray c = true ∧ d = .badCharacter d.span.start c) ∨
        ∃ t ∈ scan.tokens, Blames d t) := by
  induction h with
  | last gap =>
    intro d hd
    obtain ⟨stray, above, -⟩ := gap.strays d hd
    exact ⟨above, .inl stray⟩
  | @token position _ _ _ t _ _ gap placed _ _ _ blames _ ih =>
    have width := gap.stop_eq
    intro d hd
    rw [List.mem_append, List.mem_append, Option.mem_toList] at hd
    rcases hd with hd | hd | hd
    · obtain ⟨stray, above, -⟩ := gap.strays d hd
      exact ⟨above, .inl stray⟩
    · have blamed := blames d hd
      refine ⟨?_, .inr ⟨t, List.mem_cons_self, blamed⟩⟩
      rw [blamed.span]
      omega
    · obtain ⟨above, reported⟩ := ih d hd
      refine ⟨by omega, reported.imp_right ?_⟩
      rintro ⟨u, hu, blamed⟩
      exact ⟨u, List.mem_cons_of_mem _ hu, blamed⟩

/-- What stands first in a source is reported first. -/
theorem Covers.increasing (h : Covers position source scan) :
    scan.diagnostics.Pairwise fun d d' => d.span.start < d'.span.start := by
  induction h with
  | last gap => exact gap.increasing
  | @token _ _ _ _ t d? _ gap placed nonempty _ _ blames others ih =>
    have wide : 0 < Text.width t.text.toList :=
      Text.width_pos fun empty => nonempty (String.toList_eq_nil_iff.1 empty)
    rw [List.pairwise_append, List.pairwise_append]
    refine ⟨gap.increasing, ⟨by cases d? <;> simp, ih, ?_⟩, ?_⟩
    · intro d hd d' hd'
      have blamed := blames d (Option.mem_toList.1 hd)
      have behind := (others.reports d' hd').1
      rw [blamed.span]
      omega
    · intro d hd d' hd'
      have before := (gap.strays d hd).2.2
      rw [List.mem_append, Option.mem_toList] at hd'
      rcases hd' with hd' | hd'
      · rw [(blames d' hd').span]
        exact before
      · have behind := (others.reports d' hd').1
        omega

end Scan

/-- Scanning loses nothing. The tokens of a source follow each other, none begins
before the one in front of it has ended, and each is the text at its span; all
but the last have a text, and the last is the only end, without width behind the
source. What stands between them are blanks, comments up to the end of their
lines and stray characters, every one of which is reported at its place. All
other reports are about a number or a literal that is a token, and what stands
first is reported first. -/
theorem tokenize_loses_nothing (source : String) :
    Scan.Covers 0 source.toList (tokenize source) ∧
    (tokenize source).tokens.Pairwise (fun t u => t.span.stop ≤ u.span.start) ∧
    (∀ t ∈ (tokenize source).tokens, t.span.Cuts source.toList t.text.toList) ∧
    (∃ inner, (tokenize source).tokens = inner ++ [Scan.endOfFile source.utf8ByteSize] ∧
      ∀ t ∈ inner, t.kind ≠ .eof ∧ t.text ≠ "") ∧
    (∀ d ∈ (tokenize source).diagnostics,
      (∃ c, Pattern.isStray c = true ∧ d = .badCharacter d.span.start c) ∨
        ∃ t ∈ (tokenize source).tokens, Scan.Blames d t) ∧
    (tokenize source).diagnostics.Pairwise fun d d' => d.span.start < d'.span.start := by
  have covers : Scan.Covers 0 source.toList (tokenize source) := Scan.covers_scanFrom 0 _
  obtain ⟨inner, htokens, hinner⟩ := covers.ends
  rw [Nat.zero_add, Text.width_toList] at htokens
  exact ⟨covers, covers.pairwise, covers.cuts Text.width_nil.symm,
    ⟨inner, htokens, fun t ht => ⟨(hinner t ht).1, (hinner t ht).2.1⟩⟩,
    fun d hd => (covers.reports d hd).2, covers.increasing⟩

end Scriptlet
