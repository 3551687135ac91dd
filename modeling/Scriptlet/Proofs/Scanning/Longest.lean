import Scriptlet.Proofs.Scanning.Continuing

/-!
# The first match is the longest

The patterns are tried in the order of their list and the first that matches
decides. What a pattern describes is said here without looking at what follows,
and a pattern takes the longest text that it describes. The list is ordered by what
its patterns take: where two of them match, the earlier one takes no less. So the
first match is the longest, and each token is the longest text at its place that any
pattern describes.
-/

namespace Scriptlet

namespace Pattern

variable {p q : Pattern} {c : Char} {n m : Nat} {cs text rest : List Char}

/-- The texts that a pattern describes, whatever stands behind them. -/
inductive Describes : Pattern → List Char → Prop where
  | word {c : Char} {cs : List Char} (starts : isWordStart c = true)
      (goesOn : ∀ d ∈ cs, isWordPart d = true) : Describes word (c :: cs)
  | digits {c : Char} {cs : List Char} (starts : c.isDigit = true)
      (goesOn : ∀ d ∈ cs, d.isDigit = true) : Describes digits (c :: cs)
  | blanks {c : Char} {cs : List Char} (starts : Text.isBlank c = true)
      (goesOn : ∀ d ∈ cs, Text.isBlank d = true) : Describes blanks (c :: cs)
  | closedString {cs : List Char} (inside : Inside cs) :
      Describes closedString ('"' :: (cs ++ ['"']))
  | openString {cs : List Char} (inside : Inside cs) : Describes openString ('"' :: cs)
  | comment {cs : List Char} (goesOn : ∀ d ∈ cs, d ≠ '\n') : Describes comment ('/' :: '/' :: cs)
  | fixed {kind : Kind} {text : List Char} (spelled : kind.spelling? = some text) :
      Describes (fixed kind) text

/-- A lexeme of a pattern is a text that the pattern describes. -/
theorem Lexeme.describes (h : p.Lexeme text rest) : p.Describes text := by
  cases h with
  | word starts goesOn => exact .word starts goesOn
  | digits starts goesOn => exact .digits starts goesOn
  | blanks starts goesOn => exact .blanks starts goesOn
  | closedString inside => exact .closedString inside
  | openString inside => exact .openString inside
  | comment goesOn => exact .comment goesOn
  | fixed spelled => exact .fixed spelled

/-- The inside of a literal reaches at least as far as any text that does not end
it. -/
theorem Inside.length_le (h : Inside cs) (rest : List Char) :
    cs.length ≤ insideLength (cs ++ rest) := by
  obtain ⟨inside, behind, rfl, more, stops⟩ := exists_inside rest
  have joined : Inside (cs ++ inside) := by
    clear stops
    induction h with
    | nil => exact more
    | plain unquoted bare _ ih => exact .plain unquoted bare ih
    | escaped inLine _ ih => exact .escaped inLine ih
  rw [← List.append_assoc, insideLength_append joined stops, List.length_append]
  exact Nat.le_add_right _ _

/-- A pattern matches in front of a text that it describes, and takes no less. -/
theorem Describes.exists_length? (h : p.Describes text) (rest : List Char) :
    ∃ n, p.length? (text ++ rest) = some n ∧ text.length ≤ n := by
  -- A run of characters of a class is taken as far as it goes.
  have run {inClass : Char → Bool} {cs : List Char} (goesOn : ∀ d ∈ cs, inClass d = true) :
      cs.length ≤ ((cs ++ rest).takeWhile inClass).length := by
    rw [List.takeWhile_append_of_pos goesOn, List.length_append]
    exact Nat.le_add_right _ _
  cases h with
  | word starts goesOn => exact ⟨_, by simp [length?, starts], Nat.succ_le_succ (run goesOn)⟩
  | digits starts goesOn => exact ⟨_, by simp [length?, starts], Nat.succ_le_succ (run goesOn)⟩
  | blanks starts goesOn => exact ⟨_, by simp [length?, starts], Nat.succ_le_succ (run goesOn)⟩
  | closedString inside => exact ⟨_, (inside.closed rest).length?_eq, Nat.le_refl _⟩
  | openString inside => exact ⟨_, rfl, Nat.succ_le_succ (inside.length_le rest)⟩
  | @comment cs goesOn =>
    have inLine : ∀ d ∈ cs, (d != '\n') = true := by simpa using goesOn
    exact ⟨_, rfl, Nat.succ_le_succ (Nat.succ_le_succ (run inLine))⟩
  | fixed spelled => exact ⟨_, Lexeme.length?_eq (.fixed spelled), Nat.le_refl _⟩

/-- No pattern matches in front of nothing. -/
theorem length?_nil (p : Pattern) : p.length? [] = none := by
  cases matched : p.length? [] with
  | none => rfl
  | some n =>
    obtain ⟨lexeme, rest, hsplit, -, isLexeme⟩ := exists_lexeme matched
    exact absurd (List.append_eq_nil_iff.1 hsplit.symm).1 isLexeme.ne_nil

/-- The sorts of characters that begin a text. -/
inductive Opening where
  | letter
  | digit
  | blank
  | quote
  | sign
  deriving DecidableEq

/-- The sort of a character. -/
def Opening.of (c : Char) : Opening :=
  if isWordStart c then .letter
  else if c.isDigit then .digit
  else if Text.isBlank c then .blank
  else if c = '"' then .quote
  else .sign

/-- The sort of the character that begins what a pattern describes. -/
def opening : Pattern → Opening
  | word => .letter
  | digits => .digit
  | blanks => .blank
  | closedString | openString => .quote
  | comment | fixed _ => .sign

/-- A digit is no letter and no underscore. -/
theorem isWordStart_of_isDigit (h : c.isDigit = true) : isWordStart c = false := by
  have decimal : '0'.toNat ≤ c.toNat ∧ c.toNat ≤ '9'.toNat := Char.isDigit_iff_toNat.1 h
  change 48 ≤ c.toNat ∧ c.toNat ≤ 57 at decimal
  rw [Bool.eq_false_iff]
  intro starts
  have letter := toNat_of_isWordStart starts
  omega

/-- A pattern of the list matches only in front of characters of one sort. -/
theorem opening_eq (listed : p ∈ all) (h : p.length? (c :: cs) = some n) :
    p.opening = Opening.of c := by
  obtain ⟨lexeme, rest, hsplit, -, isLexeme⟩ := exists_lexeme h
  cases isLexeme with
  | word starts =>
    obtain rfl := (List.cons.inj hsplit).1
    simp [opening, Opening.of, starts]
  | digits starts =>
    obtain rfl := (List.cons.inj hsplit).1
    simp [opening, Opening.of, isWordStart_of_isDigit starts, starts]
  | blanks starts =>
    obtain rfl := (List.cons.inj hsplit).1
    simp [opening, Opening.of, isWordStart_of_isBlank starts, isDigit_of_isBlank starts, starts]
  | closedString | openString | comment =>
    obtain rfl := (List.cons.inj hsplit).1
    rfl
  | @fixed kind text _ spelled =>
    have signs : ∀ kind ∈ Kind.all, fixed kind ∈ all →
        (kind.spelling?.bind List.head?).all fun c => Opening.of c = .sign := by decide
    cases lexeme with
    | nil => exact absurd rfl (Kind.spelling_ne_nil spelled)
    | cons d ds =>
      obtain rfl := (List.cons.inj hsplit).1
      have sign := signs kind (Kind.mem_all kind) listed
      rw [spelled] at sign
      exact (of_decide_eq_true sign).symm

/-- Where both patterns match, the first takes no less than the second. -/
def Outruns (p q : Pattern) : Prop :=
  ∀ cs n m, p.length? cs = some n → q.length? cs = some m → m ≤ n

/-- A closed literal is longer than what is taken of it as an open one. -/
theorem outruns_openString : closedString.Outruns openString := by
  intro cs n m closed opened
  obtain ⟨lexeme, rest, rfl, rfl, isLexeme⟩ := exists_lexeme closed
  cases isLexeme with
  | @closedString cs _ inside =>
    have taken := insideLength_append inside (.atQuote rest)
    have reaches : insideLength (cs ++ ['"'] ++ rest) + 1 = m := Option.some.inj opened
    rw [List.append_assoc] at reaches
    simp only [List.singleton_append, taken] at reaches
    simp [← reaches]

/-- A comment is longer than any sign. -/
theorem outruns_sign {kind : Kind} (short : kind.spelling?.all (·.length ≤ 2)) :
    comment.Outruns (fixed kind) := by
  intro cs n m slashes sign
  obtain ⟨text, spelled, taken⟩ := Option.bind_eq_some_iff.1 sign
  obtain ⟨lexeme, rest, rfl, rfl, isLexeme⟩ := exists_lexeme slashes
  rw [spelled] at short
  cases isLexeme with
  | comment =>
    split at taken
    · have small : text.length ≤ 2 := of_decide_eq_true short
      have whole := Option.some.inj taken
      simp only [List.length_cons]
      omega
    · cases taken

/-- Of two signs at one place, the first is longer if it does not begin the second. -/
theorem outruns_of_spelling {j k : Kind}
    (ordered : j.spelling?.all fun text => k.spelling?.all fun other =>
      text.isPrefixOf other → other.length ≤ text.length) :
    (fixed j).Outruns (fixed k) := by
  intro cs n m first second
  obtain ⟨text, spelled, taken⟩ := Option.bind_eq_some_iff.1 first
  obtain ⟨other, spelled', taken'⟩ := Option.bind_eq_some_iff.1 second
  rw [spelled, spelled'] at ordered
  have shorter : text.isPrefixOf other → other.length ≤ text.length := of_decide_eq_true ordered
  split at taken
  next begins =>
    split at taken'
    next begins' =>
      obtain rfl := Option.some.inj taken
      obtain rfl := Option.some.inj taken'
      rcases List.prefix_or_prefix_of_prefix (List.isPrefixOf_iff_prefix.1 begins)
        (List.isPrefixOf_iff_prefix.1 begins') with inner | outer
      · exact shorter (List.isPrefixOf_iff_prefix.2 inner)
      · exact outer.length_le
    next => cases taken'
  next => cases taken

/-- What shows of two patterns that begin alike that the first takes no less: the
second is an open literal behind a closed one, a sign behind a comment, or a sign
that the first does not begin. -/
def leads : Pattern → Pattern → Bool
  | closedString, openString => true
  | comment, fixed kind => kind.spelling?.all (·.length ≤ 2)
  | fixed j, fixed k => j.spelling?.all fun text => k.spelling?.all fun other =>
    text.isPrefixOf other → other.length ≤ text.length
  | _, _ => false

/-- Of two patterns that begin alike, one that leads takes no less. -/
theorem outruns_of_leads (h : p.leads q = true) : p.Outruns q := by
  unfold leads at h
  split at h
  · exact outruns_openString
  · exact outruns_sign h
  · exact outruns_of_spelling h
  · cases h

/-- Patterns of the list that begin with different sorts of characters never match
at the same place. -/
theorem outruns_of_opening (first : p ∈ all) (second : q ∈ all) (apart : p.opening ≠ q.opening) :
    p.Outruns q := by
  intro cs n m hp hq
  cases cs with
  | nil => rw [length?_nil] at hp; cases hp
  | cons c cs => exact absurd ((opening_eq first hp).trans (opening_eq second hq).symm) apart

/-- Every pattern of the list leads those behind it that begin alike. -/
theorem pairwise_leads : all.Pairwise fun p q => p.opening = q.opening → p.leads q = true := by
  decide

/-- The first pattern that matches takes no less than any other that matches. -/
theorem le_of_first? (h : first? cs = some (p, n)) (listed : q ∈ all)
    (other : q.length? cs = some m) : m ≤ n := by
  obtain ⟨front, found, behind, hsplit, matched, earlier⟩ := List.findSome?_eq_some_iff.1 h
  obtain ⟨k, taken, same⟩ := Option.map_eq_some_iff.1 matched
  obtain ⟨rfl, rfl⟩ := Prod.mk.inj same
  have ordered := pairwise_leads
  rw [hsplit] at ordered
  have mem := listed
  rw [hsplit, List.mem_append, List.mem_cons] at mem
  rcases mem with before | rfl | after
  · have unmatched := Option.map_eq_none_iff.1 (earlier q before)
    rw [other] at unmatched
    cases unmatched
  · rw [taken] at other
    exact (Option.some.inj other).ge
  · have leading := List.rel_of_pairwise_cons (List.pairwise_append.1 ordered).2.1 after
    have outruns : found.Outruns q := by
      by_cases alike : found.opening = q.opening
      · exact outruns_of_leads (leading alike)
      · exact outruns_of_opening (by simp [hsplit]) listed alike
    exact outruns cs k m taken other

/-- The text at the head of a source is described by a pattern, and none describes a
wider one there. -/
structure Longest (text source : List Char) : Prop where
  front : text <+: source
  described : ∃ p ∈ all, p.Describes text
  widest : ∀ p ∈ all, ∀ other, other <+: source → p.Describes other →
    Text.width other ≤ Text.width text

/-- More characters are no narrower. -/
theorem width_take_le (h : m ≤ n) (cs : List Char) :
    Text.width (cs.take m) ≤ Text.width (cs.take n) := by
  have begins : (cs.take n).take m = cs.take m := by rw [List.take_take, Nat.min_eq_left h]
  rw [← List.take_append_drop m (cs.take n), begins, Text.width_append]
  exact Nat.le_add_right _ _

/-- What the first pattern that matches takes is the longest text that any pattern
describes. -/
theorem longest_of_first? (h : first? cs = some (p, n)) : Longest (cs.take n) cs := by
  obtain ⟨listed, lexeme, rest, hsplit, hlength, isLexeme⟩ := exists_of_first? h
  have taken : cs.take n = lexeme := by rw [hsplit, ← hlength, List.take_left]
  refine ⟨List.take_prefix n cs, ⟨p, listed, taken ▸ isLexeme.describes⟩, ?_⟩
  rintro q listed' other ⟨behind, rfl⟩ described
  obtain ⟨m, matched, reaches⟩ := described.exists_length? behind
  have shorter := le_of_first? h listed' matched
  have whole := width_take_le (Nat.le_trans reaches shorter) (other ++ behind)
  rwa [List.take_left] at whole

/-- Where a word stands, the first pattern that matches is that of words. -/
theorem eq_word_of_first? (first : first? (text ++ rest) = some (p, n))
    (shaped : word.Describes text) : p = word := by
  obtain ⟨m, matched, -⟩ := shaped.exists_length? rest
  have words : first? (text ++ rest) = some (word, m) := by simp [first?, all, matched]
  rw [first] at words
  exact (Prod.mk.inj (Option.some.inj words)).1

/-- The reserved words are words. -/
theorem describes_of_keyword {k : Kind} (reserved : k ∈ Kind.keywords)
    (spelled : k.spelling? = some text) : word.Describes text := by
  have shaped : ∀ k ∈ Kind.keywords, k.spelling?.all fun text =>
      text.head?.any isWordStart && text.tail.all isWordPart := by decide
  have here := shaped k reserved
  cases text with
  | nil => exact absurd rfl (Kind.spelling_ne_nil spelled)
  | cons c cs =>
    rw [spelled] at here
    simp only [Option.all_some, List.head?_cons, Option.any_some, List.tail_cons,
      Bool.and_eq_true, List.all_eq_true] at here
    exact .word here.1 here.2

/-- A lexeme that is no word makes no token of a reserved kind and no identifier. -/
theorem kind_of_token? {t : Token} {span : Span} (listed : p ∈ all) (other : p ≠ word)
    (made : p.token? text span = some t) : t.kind ∉ Kind.keywords ∧ t.kind ≠ .identifier := by
  have signs : ∀ k ∈ Kind.all, fixed k ∈ all → k ∉ Kind.keywords ∧ k ≠ .identifier := by decide
  cases p with
  | word => exact absurd rfl other
  | blanks | comment => cases made
  | digits | closedString | openString =>
    obtain rfl := Option.some.inj made
    exact ⟨by dsimp only; decide, nofun⟩
  | fixed k =>
    obtain rfl := Option.some.inj made
    exact signs k (Kind.mem_all k) listed

end Pattern

namespace Kind

variable {k : Kind} {text : List Char}

/-- A word is of a reserved kind exactly if it is spelled like the kind. -/
theorem ofWord_eq_iff (reserved : k ∈ keywords) : ofWord text = k ↔ k.spelling? = some text := by
  rw [ofWord]
  cases found : keywords.find? fun k => k.spelling? == some text with
  | none =>
    have unspelled := List.find?_eq_none.1 found k reserved
    rw [beq_iff_eq] at unspelled
    refine iff_of_false ?_ unspelled
    rintro rfl
    revert reserved
    decide
  | some j =>
    have spelled : j.spelling? = some text := by simpa using List.find?_some found
    constructor
    · rintro rfl
      exact spelled
    · exact fun same => spelling_injective spelled same

/-- A word is an identifier exactly if it is spelled like no reserved kind. -/
theorem ofWord_eq_identifier_iff :
    ofWord text = .identifier ↔ ∀ k ∈ keywords, k.spelling? ≠ some text := by
  constructor
  · intro names k reserved spelled
    rw [(ofWord_eq_iff reserved).2 spelled] at names
    subst names
    revert reserved
    decide
  · intro unspelled
    have missing : (keywords.find? fun k => k.spelling? == some text) = none :=
      List.find?_eq_none.2 fun k reserved => by simpa using unspelled k reserved
    rw [ofWord, missing, Option.getD_none]

end Kind

/-- The token stands in a source that begins at a position, and is what the first
pattern that matches at its place makes of what it takes. -/
def Token.MadeIn (t : Token) (position : Nat) (source : List Char) : Prop :=
  ∃ p before after, source = before ++ (t.text.toList ++ after) ∧
    t.span = ⟨position + Text.width before, position + Text.width (before ++ t.text.toList)⟩ ∧
    Pattern.first? (t.text.toList ++ after) = some (p, t.text.toList.length) ∧
    p.token? t.text.toList t.span = some t

/-- The report is about a character of a source that begins at a position, and no
pattern matches in front of the character. -/
def Diagnostic.StrayIn (d : Diagnostic) (c : Char) (position : Nat) (source : List Char) : Prop :=
  ∃ before after, source = before ++ c :: after ∧
    d = .badCharacter (position + Text.width before) c ∧ Pattern.first? (c :: after) = none

/-- A token is of a reserved kind exactly if it is spelled like the kind, and an
identifier exactly if it is any other word. -/
theorem Token.MadeIn.kind {t : Token} {position : Nat} {source : List Char}
    (h : t.MadeIn position source) :
    (∀ k ∈ Kind.keywords, t.kind = k ↔ k.spelling? = some t.text.toList) ∧
    (t.kind = .identifier ↔ Pattern.word.Describes t.text.toList ∧
      ∀ k ∈ Kind.keywords, k.spelling? ≠ some t.text.toList) := by
  obtain ⟨p, -, after, -, -, first, made⟩ := h
  obtain ⟨listed, lexeme, rest, hsplit, hlength, isLexeme⟩ := Pattern.exists_of_first? first
  obtain rfl : t.text.toList = lexeme := (List.append_inj hsplit hlength.symm).1
  by_cases words : p = .word
  · subst words
    have kind : t.kind = .ofWord t.text.toList := by
      rw [← Option.some.inj made]
      exact congrArg Kind.ofWord String.toList_ofList.symm
    rw [kind, Kind.ofWord_eq_identifier_iff]
    exact ⟨fun k reserved => Kind.ofWord_eq_iff reserved, by simp [isLexeme.describes]⟩
  · have unshaped : ¬ Pattern.word.Describes t.text.toList :=
      fun shaped => words (Pattern.eq_word_of_first? first shaped)
    have other : t.kind ∉ Kind.keywords ∧ t.kind ≠ .identifier :=
      Pattern.kind_of_token? listed words made
    refine ⟨fun k reserved => iff_of_false ?_ ?_, iff_of_false other.2 fun h => unshaped h.1⟩
    · rintro rfl
      exact other.1 reserved
    · exact fun spelled => unshaped (Pattern.describes_of_keyword reserved spelled)

namespace Scan

variable {position : Nat} {source : List Char}

/-- A token stays made by its pattern when more stands in front of the source. -/
theorem madeIn_append {t : Token} (front : List Char)
    (h : t.MadeIn (position + Text.width front) source) : t.MadeIn position (front ++ source) := by
  obtain ⟨p, before, after, rfl, span, first, made⟩ := h
  refine ⟨p, front ++ before, after, by simp, ?_, first, made⟩
  rw [span]
  simp [Nat.add_assoc]

/-- A stray character stays one when more stands in front of the source. -/
theorem strayIn_append {d : Diagnostic} {c : Char} (front : List Char)
    (h : d.StrayIn c (position + Text.width front) source) :
    d.StrayIn c position (front ++ source) := by
  obtain ⟨before, after, rfl, rfl, none⟩ := h
  exact ⟨front ++ before, after, by simp, by simp [Nat.add_assoc], none⟩

/-- Every token but the end is made by the first pattern that matches at its place. -/
theorem madeIn_scanFrom (position : Nat) (cs : List Char) :
    ∀ t ∈ (scanFrom 0 position cs).tokens, t.kind ≠ .eof → t.MadeIn position cs := by
  induction position, cs using scanFrom_induction with
  | ends position =>
    intro t ht inside
    obtain rfl := List.mem_singleton.1 ht
    exact absurd rfl inside
  | stray position c cs _ ih =>
    intro t ht inside
    have others := ih t (by simpa [cons] using ht) inside
    exact madeIn_append [c] (by simpa using others)
  | front position p lexeme rest _ first ih =>
    intro t ht inside
    rw [cons, List.mem_append, Option.mem_toList] at ht
    rcases ht with made | ht
    · obtain ⟨rfl, span, -⟩ := Pattern.token?_eq_some made
      exact ⟨p, [], rest, rfl, by simp [span], first, span ▸ made⟩
    · exact madeIn_append lexeme (ih t ht inside)

/-- Every character that is reported begins nothing. -/
theorem strayIn_scanFrom (position : Nat) (cs : List Char) :
    ∀ d ∈ (scanFrom 0 position cs).diagnostics, ∀ c, d.problem = .badCharacter c →
      d.StrayIn c position cs := by
  induction position, cs using scanFrom_induction with
  | ends position =>
    intro d hd
    cases hd
  | stray position c cs first ih =>
    intro d hd other same
    rw [cons, List.mem_append, Option.mem_toList] at hd
    rcases hd with here | hd
    · obtain rfl := Option.some.inj here
      obtain rfl := Problem.badCharacter.inj same
      exact ⟨[], cs, rfl, by simp, first⟩
    · exact strayIn_append [c] (by simpa using ih d hd other same)
  | front position p lexeme rest _ _ ih =>
    intro d hd other same
    rw [cons, List.mem_append, Option.mem_toList] at hd
    rcases hd with here | hd
    · obtain ⟨problem, wrong, rfl⟩ := Option.map_eq_some_iff.1 here
      rw [show problem = .badCharacter other from same] at wrong
      cases p <;> simp [Pattern.problem?] at wrong
    · exact strayIn_append lexeme (ih d hd other same)

end Scan

open Pattern

/-- The first match is the longest. At every place of a source, what the first
pattern that matches takes is the longest text that any pattern describes, and no
narrower than what any other pattern takes there, which is never nothing. So each
token but the end is the longest text at its place. A token is of a reserved kind
exactly if it is spelled like the kind, and an identifier exactly if it is any other
word. A character is reported only where no pattern matches. -/
theorem first_match_is_longest (source : String) :
    (∀ before cs, source.toList = before ++ cs → ∀ p n, first? cs = some (p, n) →
      Longest (cs.take n) cs ∧ ∀ q ∈ all, ∀ m, q.length? cs = some m →
        0 < Text.width (cs.take m) ∧ Text.width (cs.take m) ≤ Text.width (cs.take n)) ∧
    (∀ t ∈ (tokenize source).tokens, t.kind ≠ .eof →
      (∃ before after, source.toList = before ++ (t.text.toList ++ after) ∧
        t.span = ⟨Text.width before, Text.width (before ++ t.text.toList)⟩ ∧
        Longest t.text.toList (t.text.toList ++ after)) ∧
      (∀ k ∈ Kind.keywords, t.kind = k ↔ k.spelling? = some t.text.toList) ∧
      (t.kind = .identifier ↔ word.Describes t.text.toList ∧
        ∀ k ∈ Kind.keywords, k.spelling? ≠ some t.text.toList)) ∧
    (∀ d ∈ (tokenize source).diagnostics, ∀ c, d.problem = .badCharacter c → ∃ before after,
      source.toList = before ++ c :: after ∧ d = .badCharacter (Text.width before) c ∧
      ∀ p ∈ all, p.length? (c :: after) = none) := by
  refine ⟨fun before cs _ p n first => ?_, fun t ht inside => ?_, fun d hd c reported => ?_⟩
  · refine ⟨longest_of_first? first, fun q listed m matched => ⟨?_, ?_⟩⟩
    · obtain ⟨lexeme, rest, hsplit, hlength, isLexeme⟩ := exists_lexeme matched
      rw [hsplit, ← hlength, List.take_left]
      exact Text.width_pos isLexeme.ne_nil
    · exact width_take_le (le_of_first? first listed matched) cs
  · have made := Scan.madeIn_scanFrom 0 source.toList t ht inside
    refine ⟨?_, made.kind⟩
    obtain ⟨p, before, after, hsplit, span, first, -⟩ := made
    have longest := longest_of_first? first
    rw [List.take_left] at longest
    exact ⟨before, after, hsplit, by simpa using span, longest⟩
  · obtain ⟨before, after, hsplit, place, none⟩ :=
      Scan.strayIn_scanFrom 0 source.toList d hd c reported
    refine ⟨before, after, hsplit, by simpa using place, fun p listed => ?_⟩
    exact Option.map_eq_none_iff.1 (List.findSome?_eq_none_iff.1 none p listed)

/-- Where a closed literal is followed by an open one, the first one is taken whole. -/
theorem first_match_is_longest_literalSample :
    first? "\"a\"\"b == c".toList = some (closedString, 3) ∧
      Longest "\"a\"".toList "\"a\"\"b == c".toList ∧
      openString.length? "\"a\"\"b == c".toList = some 2 := by
  have first : first? "\"a\"\"b == c".toList = some (closedString, 3) := by decide
  exact ⟨first, ((first_match_is_longest "\"a\"\"b == c").1 [] _ rfl _ _ first).1, by decide⟩

end Scriptlet
