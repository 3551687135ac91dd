import Mathlib.Data.List.TakeWhile
import Scriptlet.Token.Scan

/-!
# What the patterns match

A pattern matches at the head of a text exactly where one of its lexemes stands
in front of what ends it. Some pattern matches in front of every character but
the stray ones, which begin no lexeme.
-/

namespace Scriptlet.Pattern

/-- The characters other than letters, digits and blanks that begin a lexeme. -/
def openers : List Char :=
  ['_', '"', '\x7b', '\x7d', '(', ')', ',', '=', '!', '<', '>', '|', '&', '^', '~', '+', '-', '/',
   '*']

/-- No lexeme begins with the character. -/
def isStray (c : Char) : Bool := !(c.isAlphanum || Text.isBlank c || openers.contains c)

/-- The characters between the quotes of a literal: no quote and no backslash
stands there by itself, and a line feed is not escaped. -/
inductive Inside : List Char → Prop where
  | nil : Inside []
  | plain {c : Char} {cs : List Char} (unquoted : c ≠ '"') (bare : c ≠ '\\') (others : Inside cs) :
      Inside (c :: cs)
  | escaped {c : Char} {cs : List Char} (inLine : c ≠ '\n') (others : Inside cs) :
      Inside ('\\' :: c :: cs)

/-- What stands behind the inside of a literal: its closing quote, or a backslash
that escapes nothing, or nothing at all. -/
inductive Stops : List Char → Prop where
  | atEnd : Stops []
  | atQuote (cs : List Char) : Stops ('"' :: cs)
  | atBackslash : Stops ['\\']
  | atLineFeed (cs : List Char) : Stops ('\\' :: '\n' :: cs)

/-- The lexemes of a pattern, each in front of what may follow it. -/
inductive Lexeme : Pattern → (lexeme rest : List Char) → Prop where
  | word {c : Char} {cs rest : List Char} (starts : isWordStart c = true)
      (goesOn : ∀ d ∈ cs, isWordPart d = true) (ends : ∀ d ∈ rest.head?, isWordPart d = false) :
      Lexeme word (c :: cs) rest
  | digits {c : Char} {cs rest : List Char} (starts : c.isDigit = true)
      (goesOn : ∀ d ∈ cs, d.isDigit = true) (ends : ∀ d ∈ rest.head?, d.isDigit = false) :
      Lexeme digits (c :: cs) rest
  | blanks {c : Char} {cs rest : List Char} (starts : Text.isBlank c = true)
      (goesOn : ∀ d ∈ cs, Text.isBlank d = true) (ends : ∀ d ∈ rest.head?, Text.isBlank d = false) :
      Lexeme blanks (c :: cs) rest
  | closedString {cs rest : List Char} (inside : Inside cs) :
      Lexeme closedString ('"' :: (cs ++ ['"'])) rest
  | openString {cs rest : List Char} (inside : Inside cs) (stops : Stops rest) :
      Lexeme openString ('"' :: cs) rest
  | comment {cs rest : List Char} (goesOn : ∀ d ∈ cs, d ≠ '\n')
      (ends : ∀ d ∈ rest.head?, d = '\n') :
      Lexeme comment ('/' :: '/' :: cs) rest
  | fixed {kind : Kind} {text rest : List Char} (spelled : kind.spelling? = some text) :
      Lexeme (fixed kind) text rest

/-- The inside of a literal is as long as it can be. -/
theorem insideLength_append {cs rest : List Char} (inside : Inside cs) (stops : Stops rest) :
    insideLength (cs ++ rest) = cs.length := by
  induction inside with
  | nil =>
    cases stops with
    | atQuote cs => cases cs <;> simp [insideLength]
    | _ => simp [insideLength]
  | @plain c cs unquoted bare _ ih =>
    cases hnext : cs ++ rest with
    | nil =>
      obtain ⟨rfl, rfl⟩ := List.append_eq_nil_iff.1 hnext
      simp [insideLength, unquoted, bare]
    | cons d ds =>
      rw [hnext] at ih
      simp [insideLength, hnext, unquoted, bare, ih]
  | escaped inLine _ ih => simp [insideLength, inLine, ih]

/-- Every text has an inside of a literal at its head. -/
theorem exists_inside (cs : List Char) :
    ∃ inside rest, cs = inside ++ rest ∧ Inside inside ∧ Stops rest := by
  fun_induction insideLength cs with
  | case1 => exact ⟨[], [], rfl, .nil, .atEnd⟩
  | case2 c h =>
    rcases h with rfl | rfl
    · exact ⟨[], ['"'], rfl, .nil, .atQuote []⟩
    · exact ⟨[], ['\\'], rfl, .nil, .atBackslash⟩
  | case3 c h =>
    rw [not_or] at h
    exact ⟨[c], [], rfl, .plain h.1 h.2 .nil, .atEnd⟩
  | case4 d cs => exact ⟨[], '"' :: d :: cs, rfl, .nil, .atQuote _⟩
  | case5 cs => exact ⟨[], '\\' :: '\n' :: cs, rfl, .nil, .atLineFeed _⟩
  | case6 d cs inLine _ ih =>
    obtain ⟨inside, rest, rfl, h, stops⟩ := ih
    exact ⟨'\\' :: d :: inside, rest, rfl, .escaped inLine h, stops⟩
  | case7 c d cs unquoted bare ih =>
    obtain ⟨inside, rest, hsplit, h, stops⟩ := ih
    exact ⟨c :: inside, rest, by rw [hsplit]; rfl, .plain unquoted bare h, stops⟩

/-- A run of characters of a class reaches up to the first one outside of it. -/
theorem takeWhile_append_of_head (inClass : Char → Bool) {cs rest : List Char}
    (goesOn : ∀ d ∈ cs, inClass d = true) (ends : ∀ d ∈ rest.head?, inClass d = false) :
    (cs ++ rest).takeWhile inClass = cs := by
  rw [List.takeWhile_append_of_pos goesOn]
  cases rest with
  | nil => simp
  | cons d ds => simp [ends d rfl]

/-- Every text is a run of characters of a class in front of one outside of it. -/
theorem exists_takeWhile (inClass : Char → Bool) (cs : List Char) :
    ∃ rest, cs = cs.takeWhile inClass ++ rest ∧
      (∀ d ∈ cs.takeWhile inClass, inClass d = true) ∧ ∀ d ∈ rest.head?, inClass d = false := by
  refine ⟨cs.dropWhile inClass, List.takeWhile_append_dropWhile.symm, ?_, ?_⟩
  · exact fun d => List.mem_takeWhile_imp
  · intro d hd
    have head := List.head?_dropWhile_not inClass cs
    rw [hd] at head
    simpa using head

/-- A pattern takes its lexeme where one stands in front of what may follow. -/
theorem Lexeme.length?_eq {p : Pattern} {lexeme rest : List Char} (h : p.Lexeme lexeme rest) :
    p.length? (lexeme ++ rest) = some lexeme.length := by
  cases h with
  | word starts goesOn ends =>
    simp [length?, starts, takeWhile_append_of_head _ goesOn ends]
  | digits starts goesOn ends => simp [length?, starts, takeWhile_append_of_head _ goesOn ends]
  | blanks starts goesOn ends => simp [length?, starts, takeWhile_append_of_head _ goesOn ends]
  | @closedString cs rest inside =>
    have taken := insideLength_append inside (.atQuote rest)
    simp [length?, taken]
  | openString inside stops =>
    have taken := insideLength_append inside stops
    simp [length?, taken]
  | comment goesOn ends =>
    have taken := takeWhile_append_of_head (· != '\n') (by simpa using goesOn)
      (by simpa using ends)
    simp [length?, taken]
  | fixed spelled => simp [length?, spelled]

/-- What a pattern takes is a lexeme of its own. -/
theorem exists_lexeme {p : Pattern} {cs : List Char} {n : Nat} (h : p.length? cs = some n) :
    ∃ lexeme rest, cs = lexeme ++ rest ∧ lexeme.length = n ∧ p.Lexeme lexeme rest := by
  -- Words, digits and blanks go on as long as characters of one class do.
  have run {p : Pattern} (inClass : Char → Bool) {c : Char} {cs : List Char}
      (h : (cs.takeWhile inClass).length + 1 = n)
      (made : ∀ {rest}, (∀ d ∈ cs.takeWhile inClass, inClass d = true) →
        (∀ d ∈ rest.head?, inClass d = false) → p.Lexeme (c :: cs.takeWhile inClass) rest) :
      ∃ lexeme rest, c :: cs = lexeme ++ rest ∧ lexeme.length = n ∧ p.Lexeme lexeme rest := by
    obtain ⟨rest, hsplit, goesOn, ends⟩ := exists_takeWhile inClass cs
    exact ⟨c :: cs.takeWhile inClass, rest, congrArg (c :: ·) hsplit, h, made goesOn ends⟩
  unfold length? at h
  split at h
  case h_1 c cs =>
    split at h
    next starts => exact run isWordPart (Option.some.inj h) (.word starts)
    next => cases h
  case h_2 c cs =>
    split at h
    next starts => exact run Char.isDigit (Option.some.inj h) (.digits starts)
    next => cases h
  case h_3 c cs =>
    split at h
    next starts => exact run Text.isBlank (Option.some.inj h) (.blanks starts)
    next => cases h
  case h_4 cs =>
    obtain ⟨inside, rest, rfl, closes, stops⟩ := exists_inside cs
    rw [insideLength_append closes stops, List.drop_left] at h
    split at h
    next closed =>
      obtain ⟨rest, rfl⟩ := List.head?_eq_some_iff.1 closed
      exact ⟨'"' :: (inside ++ ['"']), rest, by simp, by simpa using h, .closedString closes⟩
    next => cases h
  case h_5 cs =>
    obtain ⟨inside, rest, rfl, closes, stops⟩ := exists_inside cs
    rw [insideLength_append closes stops] at h
    exact ⟨'"' :: inside, rest, rfl, Option.some.inj h, .openString closes stops⟩
  case h_6 cs =>
    obtain ⟨rest, hsplit, goesOn, ends⟩ := exists_takeWhile (· != '\n') cs
    refine ⟨'/' :: '/' :: cs.takeWhile (· != '\n'), rest, ?_, Option.some.inj h, ?_⟩
    · exact congrArg (fun cs => '/' :: '/' :: cs) hsplit
    · exact .comment (by simpa using goesOn) (by simpa using ends)
  case h_7 kind =>
    obtain ⟨text, spelled, taken⟩ := Option.bind_eq_some_iff.1 h
    split at taken
    next begins =>
      obtain ⟨rest, rfl⟩ := List.isPrefixOf_iff_prefix.1 begins
      exact ⟨text, rest, rfl, Option.some.inj taken, .fixed spelled⟩
    next => cases taken
  case h_8 => cases h

/-- Every spelling begins with a character that is not stray. -/
theorem isStray_spelling {k : Kind} {c : Char} {cs : List Char} (h : k.spelling? = some (c :: cs)) :
    isStray c = false := by
  have kinds : ∀ k ∈ Kind.all, (k.spelling?.bind List.head?).all fun c => !isStray c := by decide
  have found := kinds k (Kind.mem_all k)
  simpa [h] using found

/-- No lexeme begins with a stray character. -/
theorem Lexeme.isStray_head {p : Pattern} {c : Char} {cs lexeme rest : List Char}
    (h : p.Lexeme lexeme rest) (hsplit : c :: cs = lexeme ++ rest) : isStray c = false := by
  cases h with
  | word starts =>
    obtain rfl := (List.cons.inj hsplit).1
    rw [isWordStart, Bool.or_eq_true, beq_iff_eq] at starts
    rcases starts with alpha | rfl
    · simp [isStray, Char.isAlphanum, alpha]
    · rfl
  | digits starts =>
    obtain rfl := (List.cons.inj hsplit).1
    simp [isStray, Char.isAlphanum, starts]
  | blanks starts =>
    obtain rfl := (List.cons.inj hsplit).1
    simp [isStray, starts]
  | closedString | openString | comment =>
    obtain rfl := (List.cons.inj hsplit).1
    rfl
  | fixed spelled =>
    cases lexeme with
    | nil => exact absurd rfl (Kind.spelling_ne_nil spelled)
    | cons d ds =>
      obtain rfl := (List.cons.inj hsplit).1
      exact isStray_spelling spelled

/-- Every opener that begins neither a word nor a literal is spelled by itself. -/
theorem exists_fixed_of_opener {c : Char} (h : c ∈ openers) :
    c = '_' ∨ c = '"' ∨ ∃ kind, fixed kind ∈ all ∧ kind.spelling? = some [c] := by
  have found : (openers.all fun c => c == '_' || c == '"' || Kind.all.any fun kind =>
      all.contains (fixed kind) && kind.spelling? == some [c]) = true := by decide
  have here := List.all_eq_true.1 found c h
  simp only [Bool.or_eq_true, beq_iff_eq, List.any_eq_true, Bool.and_eq_true,
    List.contains_iff_mem] at here
  rcases here with (here | here) | ⟨kind, -, here⟩
  · exact .inl here
  · exact .inr (.inl here)
  · exact .inr (.inr ⟨kind, here⟩)

/-- Some pattern matches in front of every character that is not stray. -/
theorem exists_length?_of_not_stray {c : Char} (h : isStray c = false) (cs : List Char) :
    ∃ p ∈ all, (p.length? (c :: cs)).isSome = true := by
  rw [isStray, Bool.not_eq_false', Bool.or_eq_true, Bool.or_eq_true, Char.isAlphanum,
    Bool.or_eq_true, List.contains_iff_mem] at h
  rcases h with ((alpha | digit) | blank) | opener
  · exact ⟨word, by decide, by simp [length?, isWordStart, alpha]⟩
  · exact ⟨digits, by decide, by simp [length?, digit]⟩
  · exact ⟨blanks, by decide, by simp [length?, blank]⟩
  · rcases exists_fixed_of_opener opener with rfl | rfl | ⟨kind, mem, spelled⟩
    · exact ⟨word, by decide, rfl⟩
    · exact ⟨openString, by decide, rfl⟩
    · exact ⟨fixed kind, mem, by simp [length?, spelled]⟩

/-- No pattern matches exactly in front of the stray characters. -/
theorem first?_eq_none_iff {c : Char} {cs : List Char} :
    first? (c :: cs) = none ↔ isStray c = true := by
  rw [first?, List.findSome?_eq_none_iff]
  constructor
  · intro none
    cases h : isStray c with
    | true => rfl
    | false =>
      obtain ⟨p, mem, matched⟩ := exists_length?_of_not_stray h cs
      have unmatched := Option.map_eq_none_iff.1 (none p mem)
      rw [unmatched] at matched
      cases matched
  · intro stray p _
    cases h : p.length? (c :: cs) with
    | none => rfl
    | some n =>
      obtain ⟨lexeme, rest, hsplit, -, isLexeme⟩ := exists_lexeme h
      rw [isLexeme.isStray_head hsplit] at stray
      cases stray

/-- The first pattern that matches is one of the list, and takes a lexeme of its
own. -/
theorem exists_of_first? {p : Pattern} {cs : List Char} {n : Nat} (h : first? cs = some (p, n)) :
    p ∈ all ∧ ∃ lexeme rest, cs = lexeme ++ rest ∧ lexeme.length = n ∧ p.Lexeme lexeme rest := by
  obtain ⟨q, mem, found⟩ := List.exists_of_findSome?_eq_some h
  obtain ⟨k, hlength, same⟩ := Option.map_eq_some_iff.1 found
  obtain ⟨rfl, rfl⟩ := Prod.mk.inj same
  exact ⟨mem, exists_lexeme hlength⟩

end Scriptlet.Pattern
