import Scriptlet.Proofs.Scanning.Layout

/-!
# Scanning goes on behind a line

No lexeme but an open literal or a comment reaches across a blank, and no comment
reaches across a line feed. So a text whose literals are all closed is scanned alike in
front of a line feed and whatever follows it, and what follows is scanned as if it stood
alone.
-/

namespace Scriptlet

namespace Pattern

variable {b c : Char} {cs rest : List Char}

/-- No blank stands among the letters and digits. -/
theorem toNat_of_isBlank (h : Text.isBlank c = true) : c.toNat ≤ 0x20 ∨ 0x85 ≤ c.toNat := by
  simp only [Text.isBlank, Bool.or_eq_true, Bool.and_eq_true, decide_eq_true_eq, beq_iff_eq] at h
  omega

/-- A word begins with a letter or an underscore. -/
theorem toNat_of_isWordStart (h : isWordStart c = true) : 0x41 ≤ c.toNat ∧ c.toNat ≤ 0x7a := by
  have letter : (decide ('A'.val ≤ c.val ∧ c.val ≤ 'Z'.val) ||
      (decide ('a'.val ≤ c.val) && decide (c.val ≤ 'z'.val)) || c == '_') = true := h
  simp only [Bool.or_eq_true, Bool.and_eq_true, decide_eq_true_eq, beq_iff_eq,
    UInt32.le_iff_toNat_le] at letter
  rcases letter with (⟨above, below⟩ | ⟨above, below⟩) | rfl
  · change 65 ≤ c.toNat at above
    change c.toNat ≤ 90 at below
    omega
  · change 97 ≤ c.toNat at above
    change c.toNat ≤ 122 at below
    omega
  · decide

/-- No blank begins a word. -/
theorem isWordStart_of_isBlank (h : Text.isBlank c = true) : isWordStart c = false := by
  have range := toNat_of_isBlank h
  rw [Bool.eq_false_iff]
  intro starts
  have letter := toNat_of_isWordStart starts
  omega

/-- No blank is a digit. -/
theorem isDigit_of_isBlank (h : Text.isBlank c = true) : c.isDigit = false := by
  have range := toNat_of_isBlank h
  rw [Bool.eq_false_iff]
  intro digit
  have decimal : '0'.toNat ≤ c.toNat ∧ c.toNat ≤ '9'.toNat := Char.isDigit_iff_toNat.1 digit
  change 48 ≤ c.toNat ∧ c.toNat ≤ 57 at decimal
  omega

/-- No blank continues a word. -/
theorem isWordPart_of_isBlank (h : Text.isBlank c = true) : isWordPart c = false := by
  have letter := isWordStart_of_isBlank h
  rw [isWordStart, Bool.or_eq_false_iff] at letter
  rw [isWordPart, Char.isAlphanum, isDigit_of_isBlank h, letter.1, letter.2]
  rfl

/-- A run of characters of a class ends in front of a character outside of it. -/
theorem takeWhile_append_outside (inClass : Char → Bool) (outside : inClass b = false)
    (cs rest : List Char) : (cs ++ b :: rest).takeWhile inClass = cs.takeWhile inClass := by
  induction cs with
  | nil => simp [outside]
  | cons c cs ih => simp [List.takeWhile_cons, ih]

/-- A text without a character begins a text in front of that character if it begins it
at all. -/
theorem isPrefixOf_append_other {text : List Char} (others : ∀ c ∈ text, c ≠ b)
    (cs rest : List Char) : text.isPrefixOf (cs ++ b :: rest) = text.isPrefixOf cs := by
  induction text generalizing cs with
  | nil => simp
  | cons c text ih =>
    obtain ⟨here, others⟩ := List.forall_mem_cons.1 others
    cases cs with
    | nil => simp [List.isPrefixOf, here]
    | cons d cs => simp [List.isPrefixOf, ih others]

/-- No spelling has a blank. -/
theorem spelling_solid {kind : Kind} {text : List Char} (h : kind.spelling? = some text) :
    ∀ c ∈ text, Text.isBlank c = false := by
  have kinds : (Kind.all.all fun k => (k.spelling?.getD []).all (!Text.isBlank ·)) = true := by
    decide
  have here := List.all_eq_true.1 kinds kind (Kind.mem_all kind)
  rw [h, Option.getD_some, List.all_eq_true] at here
  simpa using here

/-- Where neither blanks nor a literal begin, every pattern takes as many characters
in front of a blank and more as it does without. Only a comment goes on behind blanks
other than a line feed. -/
theorem length?_append_blank (p : Pattern) (separates : Text.isBlank b = true)
    (unquoted : c ≠ '"') (solid : Text.isBlank c = false)
    (ends : b = '\n' ∨ comment.length? (c :: cs) = none) (rest : List Char) :
    p.length? (c :: cs ++ b :: rest) = p.length? (c :: cs) := by
  cases p with
  | word =>
    have run := takeWhile_append_outside isWordPart (isWordPart_of_isBlank separates) cs rest
    simp [length?, run]
  | digits =>
    have run := takeWhile_append_outside Char.isDigit (isDigit_of_isBlank separates) cs rest
    simp [length?, run]
  | blanks => simp [length?, solid]
  | closedString => simp [length?, unquoted]
  | openString => simp [length?, unquoted]
  | comment =>
    cases cs with
    | nil =>
      have noSlash : b ≠ '/' := by
        rintro rfl
        cases separates
      simp [length?, noSlash]
    | cons d cs =>
      by_cases slashes : c = '/' ∧ d = '/'
      · obtain ⟨rfl, rfl⟩ := slashes
        rcases ends with rfl | none
        · have run := takeWhile_append_outside (· != '\n') (by decide : ('\n' != '\n') = false) cs
            rest
          simp [length?, run]
        · cases none
      · rw [not_and_or] at slashes
        rcases slashes with other | other <;> simp [length?, other]
  | fixed kind =>
    cases spelled : kind.spelling? with
    | none => simp [length?, spelled]
    | some text =>
      have others : ∀ c ∈ text, c ≠ b := by
        rintro c hc rfl
        exact Bool.noConfusion ((spelling_solid spelled c hc).symm.trans separates)
      have begins := isPrefixOf_append_other others (c :: cs) rest
      rw [List.cons_append] at begins
      rw [length?, length?, spelled, Option.bind_some, Option.bind_some, List.cons_append, begins]

/-- At a quote, a closed literal is matched if there is one, and an open literal
otherwise. -/
theorem first?_quote (cs : List Char) :
    first? ('"' :: cs) = match closedString.length? ('"' :: cs) with
      | some n => some (closedString, n)
      | none => some (openString, insideLength cs + 1) := by
  have words : word.length? ('"' :: cs) = none := rfl
  have numbers : digits.length? ('"' :: cs) = none := rfl
  have separates : blanks.length? ('"' :: cs) = none := rfl
  have opens : openString.length? ('"' :: cs) = some (insideLength cs + 1) := rfl
  cases matched : closedString.length? ('"' :: cs) <;>
    simp [first?, all, words, numbers, separates, matched, opens]

/-- The inside of a literal is closed by a quote, whatever follows. -/
theorem Inside.closed (h : Inside cs) (rest : List Char) :
    closedString.Lexeme ('"' :: (cs ++ ['"'])) rest := .closedString h

/-- The pattern that matches first does so in front of a blank and more as well, unless
blanks or an open literal begin, or a comment in front of another blank than a line
feed. -/
theorem first?_append_blank {p : Pattern} {n : Nat} (separates : Text.isBlank b = true)
    (solid : Text.isBlank c = false) (closed : p ≠ openString)
    (ends : b = '\n' ∨ comment.length? (c :: cs) = none) (h : first? (c :: cs) = some (p, n))
    (rest : List Char) : first? (c :: cs ++ b :: rest) = some (p, n) := by
  by_cases quoted : c = '"'
  · subst quoted
    rw [first?_quote] at h
    rw [List.cons_append, first?_quote]
    cases matched : closedString.length? ('"' :: cs) with
    | none =>
      simp only [matched, Option.some.injEq, Prod.mk.injEq] at h
      exact absurd h.1.symm closed
    | some k =>
      obtain ⟨lexeme, behind, hsplit, rfl, isLexeme⟩ := exists_lexeme matched
      cases isLexeme with
      | closedString inside =>
        have taken := (inside.closed (behind ++ b :: rest)).length?_eq
        rw [← List.append_assoc, ← hsplit, List.cons_append] at taken
        simpa [matched, taken] using h
  · have same (q : Pattern) := length?_append_blank q separates quoted solid ends rest
    rw [← h, first?, first?]
    simp only [same]

/-- Where a blank begins, the blanks are matched. -/
theorem first?_blank (h : Text.isBlank c = true) (cs : List Char) :
    first? (c :: cs) = some (blanks, (cs.takeWhile Text.isBlank).length + 1) := by
  simp [first?, all, length?, isWordStart_of_isBlank h, isDigit_of_isBlank h, h]

end Pattern

namespace Scan

variable {position : Nat} {c : Char} {cs rest : List Char}

/-- A whole run of blanks only moves the position. -/
theorem scanFrom_blanks (position : Nat) (separates : ∀ c ∈ cs, Text.isBlank c = true)
    (ends : ∀ c ∈ rest.head?, Text.isBlank c = false) :
    scanFrom 0 position (cs ++ rest) = scanFrom 0 (position + Text.width cs) rest := by
  cases cs with
  | nil => rfl
  | cons c cs =>
    obtain ⟨here, others⟩ := List.forall_mem_cons.1 separates
    have first := Pattern.first?_blank here (cs ++ rest)
    rw [Pattern.takeWhile_append_of_head _ others ends] at first
    exact scanFrom_lexeme first (List.cons_ne_nil c cs)

/-- A blank only moves the position. -/
theorem scanFrom_blank (separates : Text.isBlank c = true) :
    scanFrom 0 position (c :: cs) = scanFrom 0 (position + c.utf8Size) cs := by
  obtain ⟨rest, hsplit, blanks, ends⟩ := Pattern.exists_takeWhile Text.isBlank cs
  have whole := scanFrom_blanks position (List.forall_mem_cons.2 ⟨separates, blanks⟩) ends
  have others := scanFrom_blanks (position + c.utf8Size) blanks ends
  rw [List.cons_append, ← hsplit, Text.width_cons, ← Nat.add_assoc] at whole
  rw [← hsplit] at others
  rw [whole, others]

/-- Blanks only move the position, whatever follows. -/
theorem scanFrom_gap {gap : List Char} (blank : ∀ c ∈ gap, Text.isBlank c = true)
    (position : Nat) (cs : List Char) :
    scanFrom 0 position (gap ++ cs) = scanFrom 0 (position + Text.width gap) cs := by
  induction gap generalizing position with
  | nil => rfl
  | cons c gap ih =>
    obtain ⟨separates, blank⟩ := List.forall_mem_cons.1 blank
    rw [List.cons_append, scanFrom_blank separates, ih blank, Text.width_cons, Nat.add_assoc]

/-- One scan without its end, and another one behind it. -/
def followedBy (scan behind : Scan) : Scan :=
  ⟨scan.tokens.dropLast ++ behind.tokens, scan.diagnostics ++ behind.diagnostics⟩

/-- What stands in front of a scan stands in front of those that follow as well. -/
theorem cons_followedBy (token? : Option Token) (diagnostic? : Option Diagnostic)
    {scan : Scan} (nonempty : scan.tokens ≠ []) (behind : Scan) :
    (cons token? diagnostic? scan).followedBy behind =
      cons token? diagnostic? (scan.followedBy behind) := by
  simp [cons, followedBy, List.dropLast_append_of_ne_nil nonempty]

/-- A scan has a token. -/
theorem tokens_scanFrom_ne_nil (position : Nat) (cs : List Char) :
    (scanFrom 0 position cs).tokens ≠ [] := by
  obtain ⟨inner, htokens, -⟩ := (covers_scanFrom position cs).ends
  simp [htokens]

/-- If all literals of a text are closed, the text is scanned in front of a line feed
as it stands alone, and so is what follows the line feed. -/
theorem scanFrom_lineFeed (position : Nat) (cs rest : List Char)
    (closed : ∀ d ∈ (scanFrom 0 position cs).diagnostics, d.problem ≠ .unterminatedString) :
    scanFrom 0 position (cs ++ '\n' :: rest) =
      (scanFrom 0 position cs).followedBy (scanFrom 0 (position + Text.width cs + 1) rest) := by
  match cs with
  | [] => exact scanFrom_blank rfl
  | c :: cs =>
    by_cases separates : Text.isBlank c = true
    · rw [scanFrom_blank separates] at closed ⊢
      rw [List.cons_append, scanFrom_blank separates,
        scanFrom_lineFeed (position + c.utf8Size) cs rest closed, Text.width_cons, ← Nat.add_assoc]
    · cases first : Pattern.first? (c :: cs) with
      | none =>
        have stray := Pattern.first?_eq_none_iff.1 first
        have first' : Pattern.first? (c :: (cs ++ '\n' :: rest)) = none :=
          Pattern.first?_eq_none_iff.2 stray
        rw [scanFrom, first] at closed
        have others := scanFrom_lineFeed (position + c.utf8Size) cs rest fun d hd =>
          closed d (List.mem_append_right _ hd)
        rw [List.cons_append, scanFrom, first', scanFrom, first]
        dsimp only
        rw [others, cons_followedBy _ _ (tokens_scanFrom_ne_nil _ _), Text.width_cons,
          ← Nat.add_assoc]
      | some found =>
        obtain ⟨p, n⟩ := found
        obtain ⟨-, lexeme, behind, hsplit, rfl, isLexeme⟩ := Pattern.exists_of_first? first
        have shorter : behind.length < (c :: cs).length := by
          rw [hsplit, List.length_append]
          have positive := List.length_pos_iff.2 isLexeme.ne_nil
          omega
        have first' := first
        rw [hsplit] at first'
        rw [hsplit, scanFrom_lexeme first' isLexeme.ne_nil] at closed
        have literal : p ≠ .openString := by
          rintro rfl
          exact closed _ (List.mem_append_left _ (List.mem_singleton.2 rfl)) rfl
        have others := scanFrom_lineFeed (position + Text.width lexeme) behind rest fun d hd =>
          closed d (List.mem_append_right _ hd)
        have first'' := Pattern.first?_append_blank rfl (by simpa using separates) literal
          (.inl rfl) first rest
        rw [hsplit, List.append_assoc] at first''
        rw [hsplit, List.append_assoc, scanFrom_lexeme first'' isLexeme.ne_nil,
          scanFrom_lexeme first' isLexeme.ne_nil, others,
          cons_followedBy _ _ (tokens_scanFrom_ne_nil _ _), Text.width_append, ← Nat.add_assoc]
  termination_by cs.length
  decreasing_by
    · exact Nat.lt_succ_self cs.length
    · exact Nat.lt_succ_self cs.length
    · exact shorter

end Scan

namespace Kind

/-- The kinds of tokens that a text may lack at its end. -/
def completing : List Kind := [.identifier, .assignment, .closeParen, .toWord, .closeCurly]

/-- The shortest way of writing a token of such a kind: its spelling, or a name. -/
def filler (k : Kind) : List Char := k.spelling?.getD ['x']

/-- Tokens of some kinds, each in front of a blank. -/
def fillers (kinds : List Kind) : List Char := kinds.flatMap fun k => k.filler ++ [' ']

end Kind

namespace Scan

/-- What is written for a kind is scanned as a token of the kind. -/
theorem exists_scanFrom_filler {k : Kind} (h : k ∈ Kind.completing) (position : Nat)
    (rest : List Char) : ∃ t, t.kind = k ∧ scanFrom 0 position (k.filler ++ ' ' :: rest) =
      cons (some t) none (scanFrom 0 (position + Text.width k.filler + 1) rest) := by
  have scanned : ∃ p, Pattern.first? (k.filler ++ ' ' :: rest) = some (p, k.filler.length) ∧
      k.filler ≠ [] ∧ p.problem? k.filler = none ∧
      ∃ t, p.token? k.filler ⟨position, position + Text.width k.filler⟩ = some t ∧ t.kind = k := by
    simp only [Kind.completing, List.mem_cons, List.not_mem_nil, or_false] at h
    rcases h with rfl | rfl | rfl | rfl | rfl
    · exact ⟨.word, rfl, nofun, rfl, _, rfl, rfl⟩
    · exact ⟨.fixed .assignment, rfl, nofun, rfl, _, rfl, rfl⟩
    · exact ⟨.fixed .closeParen, rfl, nofun, rfl, _, rfl, rfl⟩
    · exact ⟨.word, rfl, nofun, rfl, _, rfl, rfl⟩
    · exact ⟨.fixed .closeCurly, rfl, nofun, rfl, _, rfl, rfl⟩
  obtain ⟨p, first, nonempty, sound, t, made, kind⟩ := scanned
  refine ⟨t, kind, ?_⟩
  rw [scanFrom_lexeme first nonempty, made, sound, scanFrom_blank rfl]
  rfl

/-- What is written for some kinds is scanned as tokens of these kinds, without a
report. -/
theorem exists_scanFrom_fillers {kinds : List Kind} (h : ∀ k ∈ kinds, k ∈ Kind.completing)
    (position : Nat) : ∃ filled stop, filled.map Token.kind = kinds ∧
      scanFrom 0 position (Kind.fillers kinds) = ⟨filled ++ [endOfFile stop], []⟩ := by
  induction kinds generalizing position with
  | nil => exact ⟨[], position, rfl, rfl⟩
  | cons k kinds ih =>
    obtain ⟨here, others⟩ := List.forall_mem_cons.1 h
    obtain ⟨t, kind, first⟩ := exists_scanFrom_filler here position (Kind.fillers kinds)
    obtain ⟨filled, stop, same, scanned⟩ := ih others (position + Text.width k.filler + 1)
    refine ⟨t :: filled, stop, by rw [List.map_cons, kind, same], ?_⟩
    have split : Kind.fillers (k :: kinds) = k.filler ++ ' ' :: Kind.fillers kinds := by
      simp [Kind.fillers]
    rw [split, first, scanned]
    rfl

end Scan

end Scriptlet
