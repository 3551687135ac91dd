import Mathlib.Data.List.Induction
import Mathlib.Data.Nat.Digits.Defs
import Scriptlet.Proofs.Scanning.Longest

/-!
# Scanning undoes writing

A token can be written as the spelling of its kind, as a name, as digits or as a literal
with both of its quotes. Each of these ends in front of a blank and nowhere before. So
tokens that are written one behind the other, with any blanks between them, are scanned
as what was written, and only digits that stand for no integer are reported.
-/

namespace Scriptlet

/-- The number that digits stand for in decimal notation: the last one counts ones. -/
def decimal (ds : List Char) : Nat := Nat.ofDigits 10 (ds.reverse.map fun d => d.toNat - '0'.toNat)

/-- The ways to write a token, whatever stands around it. -/
inductive Writing where
  | fixed (kind : Kind) (spelling : List Char) (spelled : kind.spelling? = some spelling)
  | identifier (name : List Char) (shaped : Pattern.word.Describes name)
      (free : ∀ k ∈ Kind.keywords, k.spelling? ≠ some name)
  | number (digits : List Char) (shaped : Pattern.digits.Describes digits)
  | literal (inside : List Char) (closes : Pattern.Inside inside)

namespace Writing

/-- What is written. -/
def text : Writing → List Char
  | fixed _ spelling _ => spelling
  | identifier name .. => name
  | number digits _ => digits
  | literal inside _ => '"' :: (inside ++ ['"'])

/-- The kind of the token. -/
def kind : Writing → Kind
  | fixed kind .. => kind
  | identifier .. => .identifier
  | number .. => .number
  | literal .. => .string

/-- The value of the token: what the digits stand for if an integer is that large, what
the inside of the literal denotes, and the two truth values. -/
def value? : Writing → Option Value
  | fixed .trueWord .. => some (.bool true)
  | fixed .falseWord .. => some (.bool false)
  | fixed .. | identifier .. => none
  | number digits _ =>
    if decimal digits ≤ 2147483647 then some (.int (Int32.ofNat (decimal digits))) else none
  | literal inside _ => some (.string (String.ofList (Escape.decode inside)))

/-- The token that is made of what is written at a position. -/
def token (w : Writing) (position : Nat) : Token :=
  ⟨w.kind, String.ofList w.text, w.value?, ⟨position, position + Text.width w.text⟩, false⟩

end Writing

/-- The report of a number that is too large. -/
def Token.excess? (t : Token) : Option Diagnostic :=
  if t.kind = .number ∧ t.literal? = none then some ⟨.invalidNumber t.text .int, t.span⟩ else none

/-- Tokens that are written one behind the other, with blanks between them. -/
inductive Joined : List Writing → List Char → Prop where
  | nil : Joined [] []
  | single (w : Writing) : Joined [w] w.text
  | cons {w v : Writing} {ws : List Writing} {gap text : List Char} (separates : gap ≠ [])
      (blank : ∀ c ∈ gap, Text.isBlank c = true) (others : Joined (v :: ws) text) :
      Joined (w :: v :: ws) (w.text ++ (gap ++ text))

/-- Digits are read as the number that they stand for. -/
theorem Pattern.digitsValue_eq_decimal (ds : List Char) : digitsValue ds = decimal ds := by
  induction ds using List.reverseRecOn with
  | nil => rfl
  | append_singleton ds d ih =>
    rw [digitsValue, List.foldl_append, List.foldl_cons, List.foldl_nil, ← digitsValue, ih,
      decimal, decimal, List.reverse_append, List.reverse_singleton, List.singleton_append,
      List.map_cons, Nat.ofDigits_cons, Nat.add_comm]

namespace Pattern

variable {text rest : List Char}

/-- A word in front of a blank or the end is matched as a word. -/
theorem first?_word (shaped : word.Describes text)
    (ends : ∀ c ∈ rest.head?, Text.isBlank c = true) :
    first? (text ++ rest) = some (word, text.length) := by
  cases shaped with
  | word starts goesOn =>
    have matched := (Lexeme.word starts goesOn fun d hd =>
      isWordPart_of_isBlank (ends d hd)).length?_eq
    simp only [first?, all, List.findSome?_cons, matched, Option.map_some]

/-- Digits in front of a blank or the end are matched as digits. -/
theorem first?_digits (shaped : digits.Describes text)
    (ends : ∀ c ∈ rest.head?, Text.isBlank c = true) :
    first? (text ++ rest) = some (digits, text.length) := by
  cases shaped with
  | @digits c cs starts goesOn =>
    have matched := (Lexeme.digits starts goesOn fun d hd =>
      isDigit_of_isBlank (ends d hd)).length?_eq
    have noWord : word.length? (c :: cs ++ rest) = none := by
      simp [length?, isWordStart_of_isDigit starts]
    simp only [first?, all, List.findSome?_cons, noWord, matched, Option.map_none, Option.map_some]

/-- A closed literal is matched as one, whatever follows. -/
theorem first?_literal (closes : Inside text) (rest : List Char) :
    first? ('"' :: (text ++ ['"']) ++ rest) = some (closedString, text.length + 2) := by
  have matched := (closes.closed rest).length?_eq
  rw [List.cons_append] at matched ⊢
  rw [first?_quote, matched]
  simp

/-- A sign in front of a blank or the end is matched as the sign. -/
theorem first?_sign {k : Kind} (spelled : k.spelling? = some text) (sign : k ∉ Kind.keywords)
    (ends : ∀ c ∈ rest.head?, Text.isBlank c = true) :
    first? (text ++ rest) = some (fixed k, text.length) := by
  have signs : ∀ k ∈ Kind.all, k ∉ Kind.keywords → k.spelling?.all fun text =>
      first? text = some (fixed k, text.length) ∧ comment.length? text = none := by decide
  have alone := signs k (Kind.mem_all k) sign
  rw [spelled, Option.all_some, decide_eq_true_eq] at alone
  obtain ⟨first, noComment⟩ := alone
  cases rest with
  | nil => rw [List.append_nil, first]
  | cons b rest =>
    cases text with
    | nil => exact absurd rfl (Kind.spelling_ne_nil spelled)
    | cons c cs =>
      have solid := spelling_solid spelled c List.mem_cons_self
      exact first?_append_blank (ends b rfl) solid Pattern.noConfusion (.inr noComment) first rest

end Pattern

namespace Writing

open Pattern Scan

/-- Something is written. -/
theorem text_ne_nil (w : Writing) : w.text ≠ [] := by
  cases w with
  | fixed kind spelling spelled => exact Kind.spelling_ne_nil spelled
  | identifier name shaped => cases shaped; exact List.cons_ne_nil _ _
  | number digits shaped => cases shaped; exact List.cons_ne_nil _ _
  | literal inside => exact List.cons_ne_nil _ _

/-- The value of a reserved word comes with its token. -/
theorem value?_fixed {kind : Kind} {spelling : List Char}
    (spelled : kind.spelling? = some spelling) :
    (fixed kind spelling spelled).value? = wordValue? kind := by
  cases kind <;> rfl

/-- No value comes with a sign. -/
theorem wordValue?_of_not_mem {kind : Kind} (sign : kind ∉ Kind.keywords) :
    wordValue? kind = none := by
  cases kind with
  | trueWord | falseWord => exact absurd (by decide) sign
  | _ => rfl

/-- The value of digits comes with their token. -/
theorem value?_number {digits : List Char} (shaped : Pattern.digits.Describes digits) :
    (number digits shaped).value? = integer? digits := by
  rw [value?, integer?, digitsValue_eq_decimal, maxInt]

/-- Only numbers are too large. -/
theorem excess?_eq_none {t : Token} (h : t.kind ≠ .number) : t.excess? = none :=
  if_neg fun excess => h excess.1

/-- The pattern that what is written has. -/
def pattern : Writing → Pattern
  | fixed kind .. => if kind ∈ Kind.keywords then .word else .fixed kind
  | identifier .. => .word
  | number .. => .digits
  | literal .. => .closedString

/-- In front of a blank or the end, what is written is matched whole. -/
theorem first?_text (w : Writing) {rest : List Char}
    (ends : ∀ c ∈ rest.head?, Text.isBlank c = true) :
    first? (w.text ++ rest) = some (w.pattern, w.text.length) := by
  cases w with
  | fixed kind spelling spelled =>
    rw [pattern]
    split
    next reserved => exact first?_word (describes_of_keyword reserved spelled) ends
    next sign => exact first?_sign spelled sign ends
  | identifier name shaped => exact first?_word shaped ends
  | number digits shaped => exact first?_digits shaped ends
  | literal inside closes =>
    rw [text, first?_literal closes rest]
    simp [pattern]

/-- The pattern makes the token of what is written. -/
theorem token?_text (w : Writing) (position : Nat) :
    w.pattern.token? w.text ⟨position, position + Text.width w.text⟩ = some (w.token position) := by
  cases w with
  | fixed kind spelling spelled =>
    rw [token, value?_fixed, pattern]
    split
    next reserved => rw [token?, text, (Kind.ofWord_eq_iff reserved).2 spelled]; rfl
    next sign =>
      rw [wordValue?_of_not_mem sign]
      rfl
  | identifier name shaped free =>
    rw [pattern, token?, text, Kind.ofWord_eq_identifier_iff.2 free]
    rfl
  | number digits shaped => rw [token, value?_number]; rfl
  | literal inside closes => simp [pattern, token?, token, kind, text, value?]

/-- Nothing is wrong with what is written but with a number that is too large. -/
theorem problem?_text (w : Writing) (position : Nat) :
    (w.pattern.problem? w.text).map (⟨·, ⟨position, position + Text.width w.text⟩⟩) =
      (w.token position).excess? := by
  cases w with
  | fixed kind spelling spelled =>
    have noNumber : ((fixed kind spelling spelled).token position).kind ≠ .number := by
      rintro rfl
      cases spelled
    rw [excess?_eq_none noNumber, pattern]
    split <;> rfl
  | identifier | literal => rw [excess?_eq_none Kind.noConfusion]; rfl
  | number digits shaped =>
    rw [Token.excess?, token, value?_number, pattern, problem?, text]
    cases integer? digits <;> simp [kind]

/-- In front of a blank or the end, what is written is scanned as its token, and only a
number that is too large is reported. -/
theorem scanFrom_text (w : Writing) (position : Nat) {rest : List Char}
    (ends : ∀ c ∈ rest.head?, Text.isBlank c = true) :
    scanFrom 0 position (w.text ++ rest) =
      cons (some (w.token position)) (w.token position).excess?
        (scanFrom 0 (position + Text.width w.text) rest) := by
  rw [scanFrom_lexeme (w.first?_text ends) w.text_ne_nil, token?_text, problem?_text]

end Writing

namespace Scan

variable {ws : List Writing} {text : List Char}

/-- A token with its report stands in front of tokens with their reports. -/
theorem cons_excess (t : Token) (tokens : List Token) (last : Token) :
    cons (some t) t.excess? ⟨tokens ++ [last], tokens.filterMap Token.excess?⟩ =
      ⟨(t :: tokens) ++ [last], (t :: tokens).filterMap Token.excess?⟩ := by
  cases found : t.excess? <;> simp [cons, found]

/-- Tokens that are written one behind the other are scanned as what was written. -/
theorem exists_scanFrom_joined (h : Joined ws text) (position : Nat) : ∃ tokens,
    scanFrom 0 position text =
      ⟨tokens ++ [endOfFile (position + Text.width text)], tokens.filterMap Token.excess?⟩ ∧
    List.Forall₂ (fun w t => ∃ position, t = Writing.token w position) ws tokens := by
  induction h generalizing position with
  | nil => exact ⟨[], rfl, .nil⟩
  | single w =>
    have scanned := @w.scanFrom_text position [] nofun
    rw [List.append_nil] at scanned
    refine ⟨[w.token position], ?_, .cons ⟨position, rfl⟩ .nil⟩
    rw [scanned]
    exact cons_excess _ [] _
  | @cons w v ws gap text separates blank others ih =>
    have behind : ∀ c ∈ (gap ++ text).head?, Text.isBlank c = true := by
      obtain ⟨b, gap, rfl⟩ := List.exists_cons_of_ne_nil separates
      simpa using blank b List.mem_cons_self
    obtain ⟨tokens, scanned, made⟩ := ih (position + Text.width w.text + Text.width gap)
    refine ⟨w.token position :: tokens, ?_, .cons ⟨position, rfl⟩ made⟩
    rw [w.scanFrom_text position behind, scanFrom_gap blank, scanned,
      cons_excess]
    simp [Nat.add_assoc]

end Scan

/-- Scanning undoes writing. Tokens that are written one behind the other, with any blanks
between them, are scanned as exactly these tokens, in order and each at its place, and the
end. A token has the kind, the text and the value of what was written, and the reports are
one for each number that is larger than any integer. -/
theorem tokenize_joined {ws : List Writing} {text : List Char} (h : Joined ws text) :
    ∃ tokens,
      (tokenize (String.ofList text)).tokens = tokens ++ [Scan.endOfFile (Text.width text)] ∧
      List.Forall₂ (fun w t => t.kind = w.kind ∧ t.text.toList = w.text ∧ t.literal? = w.value? ∧
        t.isMissing = false ∧ t.span.Cuts text w.text) ws tokens ∧
      (tokenize (String.ofList text)).diagnostics = tokens.filterMap Token.excess? := by
  obtain ⟨tokens, scanned, made⟩ := Scan.exists_scanFrom_joined h 0
  have whole : tokenize (String.ofList text) = Scan.scanFrom 0 0 text := by
    rw [tokenize, String.toList_ofList]
  rw [whole, scanned, Nat.zero_add]
  have cuts := (Scan.covers_scanFrom 0 text).cuts (Text.width_nil.symm : 0 = Text.width [])
  rw [scanned, List.nil_append] at cuts
  refine ⟨tokens, rfl, ?_, rfl⟩
  have placed : ∀ t ∈ tokens, t.span.Cuts text t.text.toList :=
    fun t ht => cuts t (List.mem_append_left _ ht)
  clear h scanned whole cuts
  induction made with
  | nil => exact .nil
  | @cons w t _ _ made _ ih =>
    obtain ⟨here, others⟩ := List.forall_mem_cons.1 placed
    obtain ⟨position, rfl⟩ := made
    have same : (w.token position).text.toList = w.text := String.toList_ofList
    exact .cons ⟨rfl, same, rfl, rfl, same ▸ here⟩ (ih others)

/-- Two slashes that are no comment, a reserved word, a name that begins with one, a number
with zeros in front, one that is too large, and a literal with a quote and slashes. -/
def writingSample : List Writing :=
  [.fixed .slash ['/'] rfl, .fixed .slash ['/'] rfl, .fixed .trueWord ['t', 'r', 'u', 'e'] rfl,
   .identifier ['t', 'o', '_', '1'] (.word rfl (List.all_eq_true.1 rfl)) (by decide),
   .number ['0', '7'] (.digits rfl (List.all_eq_true.1 rfl)),
   .number ['2', '1', '4', '7', '4', '8', '3', '6', '4', '8']
    (.digits rfl (List.all_eq_true.1 rfl)),
   .literal ['\\', '"', '/', '/']
    (.escaped (by decide) (.plain (by decide) (by decide) (.plain (by decide) (by decide) .nil)))]

/-- The same tokens, with blanks of several sorts between them. -/
def joinedSample : String := "/ /\x0ctrue\n\nto_1\t07 2147483648\u2028\"\\\"//\""

/-- The tokens are scanned as they were written. -/
theorem tokenize_joined_writingSample :
    Joined writingSample joinedSample.toList ∧ ∃ tokens,
      (tokenize joinedSample).tokens = tokens ++ [Scan.endOfFile 37] ∧
      List.Forall₂ (fun w t => t.kind = w.kind ∧ t.text.toList = w.text ∧ t.literal? = w.value? ∧
        t.isMissing = false ∧ t.span.Cuts joinedSample.toList w.text) writingSample tokens ∧
      (tokenize joinedSample).diagnostics = tokens.filterMap Token.excess? := by
  have behind {w v : Writing} {ws : List Writing} {text : List Char} (b : Char) (bs : List Char)
      (blank : (b :: bs).all Text.isBlank = true) (others : Joined (v :: ws) text) :
      Joined (w :: v :: ws) (w.text ++ (b :: bs ++ text)) :=
    .cons (List.cons_ne_nil b bs) (List.all_eq_true.1 blank) others
  have joined : Joined writingSample joinedSample.toList :=
    behind ' ' [] rfl <| behind '\x0c' [] rfl <| behind '\n' ['\n'] rfl <| behind '\t' [] rfl <|
      behind ' ' [] rfl <| behind '\u2028' [] rfl <| .single _
  have scanned := tokenize_joined joined
  rw [String.ofList_toList] at scanned
  exact ⟨joined, scanned⟩

end Scriptlet
