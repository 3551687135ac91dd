import Scriptlet.Diagnostic
import Scriptlet.Text.Blank
import Scriptlet.Token
import Scriptlet.Token.Escape

/-!
# Patterns of lexemes

The shapes a lexeme can have, how many characters of a text each shape takes,
and what a lexeme of each shape contributes. The patterns are tried in the
order of their list; the first that matches decides.
-/

namespace Scriptlet

/-- The shapes of lexemes. -/
inductive Pattern where
  /-- A letter or an underscore, then letters, digits and underscores, all ASCII. -/
  | word
  /-- ASCII digits. -/
  | digits
  /-- Blank characters, which separate tokens. -/
  | blanks
  /-- A string literal with both of its quotes. -/
  | closedString
  /-- A string literal whose closing quote is missing. -/
  | openString
  /-- Two slashes and the rest of the line. -/
  | comment
  /-- A spelling that belongs to one kind alone. -/
  | fixed (kind : Kind)
  deriving DecidableEq, Repr

namespace Pattern

/-- The character can start a word. -/
def isWordStart (c : Char) : Bool := c.isAlpha || c == '_'

/-- The character can continue a word. -/
def isWordPart (c : Char) : Bool := c.isAlphanum || c == '_'

/-- Number of characters between the quotes of a literal that starts here: up
to the closing quote, to a backslash before a line feed, or to the end. A
backslash and the character behind it belong together. -/
def insideLength : List Char → Nat
  | [] => 0
  | [c] => if c = '"' ∨ c = '\\' then 0 else 1
  | c :: d :: cs =>
    if c = '"' then 0
    else if c = '\\' then
      if d = '\n' then 0 else insideLength cs + 2
    else insideLength (d :: cs) + 1

/-- Number of leading characters that the pattern takes, if it matches. -/
def length? : Pattern → List Char → Option Nat
  | word, c :: cs => if isWordStart c then some ((cs.takeWhile isWordPart).length + 1) else none
  | digits, c :: cs => if c.isDigit then some ((cs.takeWhile Char.isDigit).length + 1) else none
  | blanks, c :: cs =>
    if Text.isBlank c then some ((cs.takeWhile Text.isBlank).length + 1) else none
  | closedString, '"' :: cs =>
    if (cs.drop (insideLength cs)).head? = some '"' then some (insideLength cs + 2) else none
  | openString, '"' :: cs => some (insideLength cs + 1)
  | comment, '/' :: '/' :: cs => some ((cs.takeWhile (· != '\n')).length + 2)
  | fixed kind, cs =>
    kind.spelling?.bind fun text => if text.isPrefixOf cs then some text.length else none
  | _, _ => none

/-- All patterns in the order in which they are tried. A spelling stands before
every spelling it begins with, and a comment before the slash. -/
def all : List Pattern :=
  [word, digits, blanks, closedString, openString, comment, fixed .openCurly, fixed .closeCurly,
   fixed .openParen, fixed .closeParen, fixed .comma, fixed .equals, fixed .notEquals, fixed .not,
   fixed .assignment, fixed .lessEquals, fixed .less, fixed .greaterEquals, fixed .greater,
   fixed .or, fixed .pipe, fixed .and, fixed .ampersand, fixed .hat, fixed .tilde, fixed .plus,
   fixed .dash, fixed .slash, fixed .star]

/-- The first pattern that matches at the head of a text, and how many
characters it takes. -/
def first? (cs : List Char) : Option (Pattern × Nat) :=
  all.findSome? fun p => (p.length? cs).map fun n => (p, n)

/-- The number that a run of decimal digits denotes. -/
def digitsValue (ds : List Char) : Nat :=
  ds.foldl (fun n d => 10 * n + (d.toNat - '0'.toNat)) 0

/-- The largest integer. -/
def maxInt : Nat := 2147483647

/-- The integer that a run of decimal digits denotes, if it is small enough. -/
def integer? (ds : List Char) : Option Value :=
  if digitsValue ds ≤ maxInt then some (.int (Int32.ofNat (digitsValue ds))) else none

/-- The value that comes with a reserved word. -/
def wordValue? : Kind → Option Value
  | .trueWord => some (.bool true)
  | .falseWord => some (.bool false)
  | _ => none

/-- The token that a lexeme of the pattern makes; blanks and comments make none. -/
def token? (p : Pattern) (lexeme : List Char) (span : Span) : Option Token :=
  let make (kind : Kind) (literal? : Option Value) : Token :=
    ⟨kind, String.ofList lexeme, literal?, span, false⟩
  match p with
  | word => some (make (.ofWord lexeme) (wordValue? (.ofWord lexeme)))
  | digits => some (make .number (integer? lexeme))
  | blanks | comment => none
  | closedString =>
    some (make .string (some (.string (String.ofList (Escape.decode lexeme.tail.dropLast)))))
  | openString => some (make .string (some (.string (String.ofList (Escape.decode lexeme.tail)))))
  | fixed kind => some (make kind none)

/-- What is wrong with a lexeme of the pattern. -/
def problem? (p : Pattern) (lexeme : List Char) : Option Problem :=
  match p with
  | digits =>
    if (integer? lexeme).isSome then none else some (.invalidNumber (String.ofList lexeme) .int)
  | openString => some .unterminatedString
  | _ => none

end Pattern

end Scriptlet
