import Scriptlet.Value

/-!
# Named things

Variables, functions and labels are told apart by an identity, not by their
names: two declarations of one name are two variables. The language has three
functions of its own and no way to declare another.
-/

namespace Scriptlet

/-- A declared variable. -/
structure Variable where
  /-- Tells the declaration apart from every other one. -/
  id : Nat
  name : String
  type : Ty
  /-- Only its declaration gives it a value. -/
  isReadOnly : Bool
  deriving DecidableEq, Repr, Inhabited

/-- A parameter of a function. -/
structure Parameter where
  name : String
  type : Ty
  deriving DecidableEq, Repr, Inhabited

/-- A variable or a parameter with its type. -/
def typed (name : String) (type : Ty) : String := s!"{name}: {type}"

/-- A function that can be called. -/
structure Function where
  /-- Tells the function apart from every other one. -/
  id : Nat
  name : String
  parameters : List Parameter
  /-- Type of a call. -/
  returns : Ty
  deriving DecidableEq, Repr, Inhabited

namespace Function

/-- The signature of a function. -/
def display (f : Function) : String :=
  let parameters := ", ".intercalate (f.parameters.map fun p => typed p.name p.type)
  s!"{f.name}({parameters}): {f.returns}"

/-- Prints a line of text. -/
def print : Function := ⟨0, "print", [⟨"text", .string⟩], .void⟩

/-- Reads a line of text. -/
def input : Function := ⟨1, "input", [], .string⟩

/-- Draws an integer from zero up to, but not including, a bound. -/
def rnd : Function := ⟨2, "rnd", [⟨"max", .int⟩], .int⟩

/-- The functions of the language, in the order in which they are listed. -/
def builtins : List Function := [print, input, rnd]

end Function

/-- The target of a jump. -/
structure Label where
  /-- Tells the label apart from every other one. -/
  id : Nat
  name : String
  deriving DecidableEq, Repr, Inhabited

/-- Anything with a name that can be shown to a reader. -/
inductive Symbol where
  | var (declared : Variable)
  | function (function : Function)
  | parameter (parameter : Parameter)
  | type (type : Ty)
  deriving DecidableEq, Repr

namespace Symbol

/-- The name of the sort of thing it is. -/
def kind : Symbol → String
  | var _ => "Variable"
  | function _ => "Function"
  | parameter _ => "Parameter"
  | type _ => "Type"

/-- The name itself. -/
def name : Symbol → String
  | var v => v.name
  | function f => f.name
  | parameter p => p.name
  | type t => t.name

/-- The name with its type or signature. -/
def display : Symbol → String
  | var v => typed v.name v.type
  | function f => f.display
  | parameter p => typed p.name p.type
  | type t => t.name

end Symbol

end Scriptlet
