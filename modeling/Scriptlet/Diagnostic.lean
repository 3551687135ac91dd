import Scriptlet.Text.Span
import Scriptlet.Token.Kind
import Scriptlet.Value

/-!
# Diagnostics

What can be wrong with a source text, and the wording of each complaint. A
diagnostic never stops a phase; it is collected with the place it is about.
-/

namespace Scriptlet

/-- What is wrong at some place of a source text. -/
inductive Problem where
  /-- No token starts with the character. -/
  | badCharacter (character : Char)
  /-- The digits denote no value of the type. -/
  | invalidNumber (text : String) (type : Ty)
  /-- The closing quote is missing. -/
  | unterminatedString
  /-- Another kind of token was required. -/
  | unexpectedToken (actual expected : Kind)
  /-- No variable of this name is visible. -/
  | undefinedName (name : String)
  /-- The very same scope declares the name already. -/
  | variableAlreadyDeclared (name : String)
  /-- The operator takes no operand of this type. -/
  | undefinedUnaryOperator (operator : String) (operand : Ty)
  /-- The operator takes no operands of these types. -/
  | undefinedBinaryOperator (operator : String) (left right : Ty)
  /-- A value of one type stands where another type is required. -/
  | cannotConvert (source target : Ty)
  /-- The variable is read-only. -/
  | cannotAssign (name : String)
  /-- No function has this name. -/
  | undefinedFunction (name : String)
  /-- The function takes another number of arguments. -/
  | wrongArgumentCount (name : String) (expected actual : Nat)
  /-- A call made for its effect stands where a value is required. -/
  | expressionMustHaveValue
  deriving DecidableEq, Repr

namespace Problem

/-- The name of the kind of problem. -/
def name : Problem → String
  | .badCharacter _ => "BadCharacter"
  | .invalidNumber .. => "InvalidNumber"
  | .unterminatedString => "UnterminatedString"
  | .unexpectedToken .. => "UnexpectedToken"
  | .undefinedName _ => "UndefinedName"
  | .variableAlreadyDeclared _ => "VariableAlreadyDeclared"
  | .undefinedUnaryOperator .. => "UndefinedUnaryOperator"
  | .undefinedBinaryOperator .. => "UndefinedBinaryOperator"
  | .cannotConvert .. => "CannotConvert"
  | .cannotAssign _ => "CannotAssign"
  | .undefinedFunction _ => "UndefinedFunction"
  | .wrongArgumentCount .. => "WrongArgumentCount"
  | .expressionMustHaveValue => "ExpressionMustHaveValue"

/-- The sentence that tells a reader about the problem. -/
def message : Problem → String
  | .badCharacter character => s!"Bad character input: '{character}'."
  | .invalidNumber text type => s!"The number {text} isn't valid {type}."
  | .unterminatedString => "Unterminated string literal."
  | .unexpectedToken actual expected => s!"Unexpected token <{actual}>, expected <{expected}>."
  | .undefinedName name => s!"Variable '{name}' doesn't exist."
  | .variableAlreadyDeclared name => s!"Variable '{name}' is already declared."
  | .undefinedUnaryOperator operator operand =>
    s!"Unary operator {operator} is not defined for type {operand}."
  | .undefinedBinaryOperator operator left right =>
    s!"Binary operator {operator} is not defined for type {left} and {right}."
  | .cannotConvert source target => s!"Cannot convert type '{source}' to type {target}."
  | .cannotAssign name => s!"Variable '{name}' is read-only and cannot be assigned to."
  | .undefinedFunction name => s!"Function '{name}' doesn't exist."
  | .wrongArgumentCount name expected actual =>
    s!"Function '{name}' requires {expected} arguments but was given {actual}."
  | .expressionMustHaveValue => "Expression must have a value."

/-- The source ended where a token was required. -/
def isUnexpectedEnd : Problem → Bool
  | .unexpectedToken .eof _ => true
  | _ => false

end Problem

/-- A problem together with the place it is about. -/
structure Diagnostic where
  problem : Problem
  span : Span
  deriving DecidableEq, Repr

namespace Diagnostic

/-- The report of a character that starts no token, which covers that character. -/
def badCharacter (position : Nat) (character : Char) : Diagnostic :=
  ⟨.badCharacter character, ⟨position, position + character.utf8Size⟩⟩

/-- The source ended where a token was required. -/
def isUnexpectedEnd (d : Diagnostic) : Bool := d.problem.isUnexpectedEnd

end Diagnostic

end Scriptlet
