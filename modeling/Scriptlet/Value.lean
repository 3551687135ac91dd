/-!
# Types and values

The closed set of static types and the values a running program works with.
Every value has exactly one type, and that type is never the error type.
-/

namespace Scriptlet

/-- The static types. -/
inductive Ty where
  /-- Type of an expression that has no meaning; it silences follow-up reports. -/
  | error
  /-- Type of a call made for its effect alone. -/
  | void
  | bool
  | int
  | string
  deriving DecidableEq, Repr, Inhabited

/-- The name of a type in messages and signatures. -/
def Ty.name : Ty → String
  | .error => "?"
  | .void => "void"
  | .bool => "bool"
  | .int => "int"
  | .string => "string"

instance : ToString Ty := ⟨Ty.name⟩

/-- The values of a running program. -/
inductive Value where
  /-- Integers are signed words of 32 bits. -/
  | int (value : Int32)
  | bool (value : Bool)
  | string (value : String)
  /-- What an expression without a value leaves behind. -/
  | void
  deriving DecidableEq, Repr, Inhabited

namespace Value

/-- The type of a value. -/
def type : Value → Ty
  | .int _ => .int
  | .bool _ => .bool
  | .string _ => .string
  | .void => .void

/-- A value as a program prints it: strings bare, nothing for void. -/
def display : Value → String
  | .int value => toString value.toInt
  | .bool true => "true"
  | .bool false => "false"
  | .string value => value
  | .void => ""

/-- The integer, if the value is one. -/
def asInt : Value → Option Int32
  | .int value => some value
  | _ => none

/-- The truth value, if the value is one. -/
def asBool : Value → Option Bool
  | .bool value => some value
  | _ => none

/-- The text, if the value is one. -/
def asString : Value → Option String
  | .string value => some value
  | _ => none

/-- A value never has the type of a meaningless expression. -/
@[simp] theorem type_ne_error (v : Value) : v.type ≠ .error := by
  cases v <;> simp [type]

/-- Only integers have the integer type. -/
theorem type_eq_int_iff {v : Value} : v.type = .int ↔ ∃ n, v = .int n := by
  cases v <;> simp [type]

/-- Only truth values have the boolean type. -/
theorem type_eq_bool_iff {v : Value} : v.type = .bool ↔ ∃ b, v = .bool b := by
  cases v <;> simp [type]

/-- Only texts have the string type. -/
theorem type_eq_string_iff {v : Value} : v.type = .string ↔ ∃ s, v = .string s := by
  cases v <;> simp [type]

end Value

end Scriptlet
