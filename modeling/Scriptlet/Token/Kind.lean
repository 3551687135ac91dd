/-!
# Kinds of tokens

Which kinds of tokens the language has, what those of fixed spelling look
like, and how tightly the operators among them bind. Fixed spellings are
pairwise different, so a spelling determines its kind.
-/

namespace Scriptlet

/-- The kinds of tokens. -/
inductive Kind where
  | eof
  | number
  | string
  | identifier
  | openCurly
  | closeCurly
  | openParen
  | closeParen
  | comma
  | assignment
  | equals
  | not
  | notEquals
  | less
  | lessEquals
  | greater
  | greaterEquals
  | or
  | and
  | pipe
  | ampersand
  | hat
  | tilde
  | plus
  | dash
  | slash
  | star
  | trueWord
  | falseWord
  | varWord
  | letWord
  | ifWord
  | elseWord
  | whileWord
  | forWord
  | toWord
  deriving DecidableEq, Repr, Inhabited

namespace Kind

/-- The name of a kind in messages and printed trees. -/
def name : Kind → String
  | .eof => "EOF"
  | .number => "Number"
  | .string => "String"
  | .identifier => "Identifier"
  | .openCurly => "OpenCurly"
  | .closeCurly => "CloseCurly"
  | .openParen => "OpenParen"
  | .closeParen => "CloseParen"
  | .comma => "Comma"
  | .assignment => "Assignment"
  | .equals => "Equals"
  | .not => "Not"
  | .notEquals => "NotEquals"
  | .less => "Less"
  | .lessEquals => "LessEquals"
  | .greater => "Greater"
  | .greaterEquals => "GreaterEquals"
  | .or => "Or"
  | .and => "And"
  | .pipe => "Pipe"
  | .ampersand => "Ampersand"
  | .hat => "Hat"
  | .tilde => "Tilde"
  | .plus => "Plus"
  | .dash => "Dash"
  | .slash => "Slash"
  | .star => "Star"
  | .trueWord => "True"
  | .falseWord => "False"
  | .varWord => "Var"
  | .letWord => "Let"
  | .ifWord => "If"
  | .elseWord => "Else"
  | .whileWord => "While"
  | .forWord => "For"
  | .toWord => "To"

instance : ToString Kind := ⟨name⟩

/-- The spelling of a kind whose tokens all look the same. -/
def spelling? : Kind → Option (List Char)
  | .eof | .number | .string | .identifier => none
  | .openCurly => some ['\x7b']
  | .closeCurly => some ['\x7d']
  | .openParen => some ['(']
  | .closeParen => some [')']
  | .comma => some [',']
  | .assignment => some ['=']
  | .equals => some ['=', '=']
  | .not => some ['!']
  | .notEquals => some ['!', '=']
  | .less => some ['<']
  | .lessEquals => some ['<', '=']
  | .greater => some ['>']
  | .greaterEquals => some ['>', '=']
  | .or => some ['|', '|']
  | .and => some ['&', '&']
  | .pipe => some ['|']
  | .ampersand => some ['&']
  | .hat => some ['^']
  | .tilde => some ['~']
  | .plus => some ['+']
  | .dash => some ['-']
  | .slash => some ['/']
  | .star => some ['*']
  | .trueWord => some ['t', 'r', 'u', 'e']
  | .falseWord => some ['f', 'a', 'l', 's', 'e']
  | .varWord => some ['v', 'a', 'r']
  | .letWord => some ['l', 'e', 't']
  | .ifWord => some ['i', 'f']
  | .elseWord => some ['e', 'l', 's', 'e']
  | .whileWord => some ['w', 'h', 'i', 'l', 'e']
  | .forWord => some ['f', 'o', 'r']
  | .toWord => some ['t', 'o']

/-- The spelling of a kind whose tokens all look the same, as a text. -/
def fixedText? (k : Kind) : Option String := k.spelling?.map String.ofList

/-- All kinds, in the order of their declaration. -/
def all : List Kind :=
  [.eof, .number, .string, .identifier, .openCurly, .closeCurly, .openParen, .closeParen, .comma,
   .assignment, .equals, .not, .notEquals, .less, .lessEquals, .greater, .greaterEquals, .or, .and,
   .pipe, .ampersand, .hat, .tilde, .plus, .dash, .slash, .star, .trueWord, .falseWord, .varWord,
   .letWord, .ifWord, .elseWord, .whileWord, .forWord, .toWord]

/-- The kinds whose spelling is a reserved word. -/
def keywords : List Kind :=
  [.trueWord, .falseWord, .varWord, .letWord, .ifWord, .elseWord, .whileWord, .forWord, .toWord]

/-- The spelling of the kind is a reserved word. -/
def isKeyword (k : Kind) : Bool := keywords.contains k

/-- The kind of a word: its reserved kind, or an identifier. -/
def ofWord (word : List Char) : Kind :=
  (keywords.find? fun k => k.spelling? == some word).getD .identifier

/-- How tightly the kind binds as an operator between two operands. A larger
number binds tighter; the kinds that are no such operator have none. -/
def binaryPrecedence? : Kind → Option Nat
  | .pipe | .or | .hat => some 1
  | .ampersand | .and => some 2
  | .equals | .notEquals | .less | .lessEquals | .greater | .greaterEquals => some 3
  | .plus | .dash => some 4
  | .star | .slash => some 5
  | _ => none

/-- How tightly every operator in front of an operand binds. -/
def unaryPrecedence : Nat := 6

/-- The kind is an operator in front of an operand. -/
def isUnaryOperator : Kind → Bool
  | .plus | .dash | .not | .tilde => true
  | _ => false

/-- The operators between two operands, from the loosest to the tightest. -/
def binaryOperators : List Kind :=
  [.pipe, .or, .hat, .ampersand, .and, .equals, .notEquals, .less, .lessEquals, .greater,
   .greaterEquals, .plus, .dash, .star, .slash]

/-- Every kind is listed. -/
theorem mem_all (k : Kind) : k ∈ all := by
  cases k <;> decide

/-- No two kinds are spelled alike. -/
theorem spelling_injective {j k : Kind} {text : List Char} (hj : j.spelling? = some text)
    (hk : k.spelling? = some text) : j = k := by
  have apart : ∀ j ∈ all, ∀ k ∈ all, j.spelling? = k.spelling? → j.spelling? ≠ none → j = k := by
    decide
  exact apart j (mem_all j) k (mem_all k) (hj.trans hk.symm) (by simp [hj])

/-- No spelling is empty. -/
theorem spelling_ne_nil {k : Kind} {text : List Char} (h : k.spelling? = some text) :
    text ≠ [] := by
  rintro rfl
  revert h
  cases k <;> decide

/-- Every operator between two operands binds looser than one in front of its
operand. -/
theorem binaryPrecedence_lt {k : Kind} {p : Nat} (h : k.binaryPrecedence? = some p) :
    0 < p ∧ p < unaryPrecedence := by
  cases k <;> simp only [binaryPrecedence?, Option.some.injEq, reduceCtorEq] at h <;> subst h <;>
    decide

end Kind

end Scriptlet
