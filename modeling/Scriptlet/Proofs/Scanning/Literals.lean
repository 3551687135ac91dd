import Scriptlet.Proofs.Scanning.Continuing

/-!
# Every string can be written and read back

A string is written as a literal character by character: a backslash or a quote
behind a backslash, any other character as it is, by its code or by its letter if
it has one. Two readers have to agree on what was written: the one that looks for
the closing quote in pairs behind backslashes, and the one that decodes what
stands between the quotes. Whichever spellings are chosen, the first finds the
quote that was written last and the second gives the string back.
-/

namespace Scriptlet

namespace Escape

variable {c d : Char} {n : Nat} {text written rest : List Char}

/-- The character is the hexadecimal digit of a number, in lower or upper case. -/
def IsHexDigit (d : Char) (n : Nat) : Prop :=
  n < 16 ∧ (d = n.digitChar ∨ d = n.digitChar.toUpper)

/-- The ways to write a character between the quotes of a literal. -/
inductive Spelling : Char → List Char → Prop where
  | plain {c : Char} (unquoted : c ≠ '"') (bare : c ≠ '\\') : Spelling c [c]
  | quote : Spelling '"' ['\\', '"']
  | backslash : Spelling '\\' ['\\', '\\']
  | lineFeed : Spelling '\n' ['\\', 'n']
  | tab : Spelling '\t' ['\\', 't']
  | carriageReturn : Spelling '\r' ['\\', 'r']
  | nul : Spelling '\x00' ['\\', '0']
  /-- The code of a character below U+0100, as two hexadecimal digits. -/
  | code {c high low : Char} (small : c.toNat < 0x100) (sixteens : IsHexDigit high (c.toNat / 16))
      (ones : IsHexDigit low (c.toNat % 16)) : Spelling c ['\\', 'x', high, low]

/-- The ways to write a text between the quotes of a literal: each of its characters
in any of its ways. -/
inductive Written : (text written : List Char) → Prop where
  | nil : Written [] []
  | cons {c : Char} {text spelled written : List Char} (spelling : Spelling c spelled)
      (others : Written text written) : Written (c :: text) (spelled ++ written)

/-- A hexadecimal digit is read as its number. -/
theorem IsHexDigit.hexDigit?_eq (h : IsHexDigit d n) : hexDigit? d = some n := by
  have digits : ∀ n < 16, hexDigit? n.digitChar = some n ∧
      hexDigit? n.digitChar.toUpper = some n := by decide
  obtain ⟨small, rfl | rfl⟩ := h
  · exact (digits n small).1
  · exact (digits n small).2

/-- A hexadecimal digit is neither a quote nor a backslash. -/
theorem IsHexDigit.plain (h : IsHexDigit d n) : d ≠ '"' ∧ d ≠ '\\' := by
  have value := h.hexDigit?_eq
  constructor
  all_goals
    rintro rfl
    cases value

/-- An escape denotes its character, and what stands behind it denotes itself. -/
theorem decode_escape (h : read? rest = some (c, n)) :
    decode ('\\' :: rest) = c :: decode (rest.drop n) := by
  rw [decode, decodeFrom, if_pos rfl, h]
  exact congrArg (c :: ·) (decodeFrom_skip n rest)

/-- A letter behind a backslash denotes its character. -/
theorem decode_letter (named : ofLetter? d = some c) (other : d ≠ 'x') (rest : List Char) :
    decode ('\\' :: d :: rest) = c :: decode rest := by
  have found : read? (d :: rest) = some (c, 1) := by
    rw [read?, if_neg other, named, Option.map_some]
  exact decode_escape found

/-- Each spelling of a character is read back as the character. -/
theorem Spelling.decode_append (h : Spelling c written) (rest : List Char) :
    decode (written ++ rest) = c :: decode rest := by
  cases h with
  | plain _ bare => exact decode_cons bare rest
  | quote | backslash | lineFeed | tab | carriageReturn | nul =>
    exact decode_letter rfl (by decide) rest
  | @code _ high low _ sixteens ones =>
    have whole : 16 * (c.toNat / 16) + c.toNat % 16 = c.toNat := Nat.div_add_mod c.toNat 16
    have found : read? ('x' :: high :: low :: rest) = some (c, 3) := by
      simp [read?, sixteens.hexDigit?_eq, ones.hexDigit?_eq, whole]
    exact decode_escape found

/-- What is written for a text denotes the text. -/
theorem Written.decode_eq (h : Written text written) : decode written = text := by
  induction h with
  | nil => rfl
  | cons spelling _ ih => rw [spelling.decode_append, ih]

/-- No spelling of a character ends a literal. -/
theorem Spelling.inside_append (h : Spelling c written) (others : Pattern.Inside rest) :
    Pattern.Inside (written ++ rest) := by
  cases h with
  | plain unquoted bare => exact .plain unquoted bare others
  | quote | backslash | lineFeed | tab | carriageReturn | nul =>
    exact .escaped (by decide) others
  | code _ sixteens ones =>
    have high := sixteens.plain
    have low := ones.plain
    exact .escaped (by decide) (.plain high.1 high.2 (.plain low.1 low.2 others))

/-- What is written for a text does not end a literal. -/
theorem Written.inside (h : Written text written) : Pattern.Inside written := by
  induction h with
  | nil => exact .nil
  | cons spelling _ ih => exact spelling.inside_append ih

/-- Every character can be written. -/
theorem exists_spelling (c : Char) : ∃ spelled, Spelling c spelled := by
  by_cases quoted : c = '"'
  · subst quoted
    exact ⟨_, .quote⟩
  · by_cases escapes : c = '\\'
    · subst escapes
      exact ⟨_, .backslash⟩
    · exact ⟨_, .plain quoted escapes⟩

/-- Every text can be written. -/
theorem exists_written (text : List Char) : ∃ written, Written text written := by
  induction text with
  | nil => exact ⟨[], .nil⟩
  | cons c text ih =>
    obtain ⟨spelled, spelling⟩ := exists_spelling c
    obtain ⟨written, others⟩ := ih
    exact ⟨_, .cons spelling others⟩

/-- What is written, between quotes. -/
def literal (written : List Char) : String := String.ofList ('"' :: (written ++ ['"']))

end Escape

open Escape Pattern

/-- The token of a whole source that is a literal of a string. -/
def Token.ofLiteral (source value : String) : Token :=
  ⟨.string, source, some (.string value), ⟨0, source.utf8ByteSize⟩, false⟩

/-- A source that is one closed literal is scanned as one token. -/
theorem tokenize_literal {written : List Char} (inside : Inside written) :
    tokenize (literal written) =
      ⟨[.ofLiteral (literal written) (String.ofList (decode written)),
        Scan.endOfFile (literal written).utf8ByteSize], []⟩ := by
  have matched : closedString.length? ('"' :: (written ++ ['"'])) = some (written.length + 2) := by
    have taken := (inside.closed []).length?_eq
    rw [List.append_nil] at taken
    simpa using taken
  have first : first? (('"' :: (written ++ ['"'])) ++ []) =
      some (closedString, ('"' :: (written ++ ['"'])).length) := by
    rw [List.append_nil, first?_quote, matched]
    simp
  have scanned := @Scan.scanFrom_lexeme 0 _ _ _ first (List.cons_ne_nil _ _)
  have width : Text.width ('"' :: (written ++ ['"'])) = (literal written).utf8ByteSize := by
    rw [← Text.width_toList, literal, String.toList_ofList]
  rw [List.append_nil, width, Nat.zero_add] at scanned
  rw [tokenize, literal, String.toList_ofList, scanned]
  simp [Scan.cons, Scan.scanFrom, token?, problem?, Token.ofLiteral, literal]

/-- Every string can be written and read back. There is a way to write it as a
literal, and a source that is such a literal, whichever spellings are chosen for its
characters, is scanned without a report into one token that covers the source and
carries the string, and the end. -/
theorem literal_reads_back (value : String) :
    (∃ written, Written value.toList written) ∧
    ∀ written, Written value.toList written →
      tokenize (literal written) =
        ⟨[.ofLiteral (literal written) value,
          Scan.endOfFile (literal written).utf8ByteSize], []⟩ := by
  refine ⟨exists_written _, fun written spelled => ?_⟩
  rw [tokenize_literal spelled.inside, spelled.decode_eq, String.ofList_toList]

/-- A quote, a backslash in front of a letter, a line feed as it is and by its
letter, and a code in front of a character that could be a third digit. -/
def mixedSample : List Char :=
  ['\\', '"', '\\', '\\', 'n', '\n', '\\', 'n', '\\', 'x', 'e', 'F', '0', 'ß']

/-- The literal is read back as the string that it was written for. -/
theorem literal_reads_back_mixedSample :
    Written "\"\\n\n\nï0ß".toList mixedSample ∧
      tokenize "\"\\\"\\\\n\n\\n\\xeF0ß\"" =
        ⟨[.ofLiteral "\"\\\"\\\\n\n\\n\\xeF0ß\"" "\"\\n\n\nï0ß",
          Scan.endOfFile 17], []⟩ := by
  have spelled : Written "\"\\n\n\nï0ß".toList mixedSample :=
    .cons .quote <| .cons .backslash <| .cons (.plain (by decide) (by decide)) <|
      .cons (.plain (by decide) (by decide)) <| .cons .lineFeed <|
        .cons (.code (by decide) ⟨by decide, .inl (by decide)⟩ ⟨by decide, .inr (by decide)⟩) <|
          .cons (.plain (by decide) (by decide)) <| .cons (.plain (by decide) (by decide)) .nil
  have reads := (literal_reads_back "\"\\n\n\nï0ß").2 mixedSample spelled
  have source : literal mixedSample = "\"\\\"\\\\n\n\\n\\xeF0ß\"" := by decide
  rw [source] at reads
  exact ⟨spelled, reads⟩

end Scriptlet
