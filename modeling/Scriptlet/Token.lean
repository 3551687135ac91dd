import Scriptlet.Text.Span
import Scriptlet.Token.Kind
import Scriptlet.Value

/-!
# Tokens

A token is a piece of source text with its kind, its place and, for literals,
the value it denotes. A missing token stands where one was expected and none
was found; it takes no room.
-/

namespace Scriptlet

/-- A token of a source text. -/
structure Token where
  kind : Kind
  /-- The text as written; a missing token has none. -/
  text : String
  /-- The value that a literal denotes, if it denotes one. -/
  literal? : Option Value
  span : Span
  /-- The token was expected here but is not in the source. -/
  isMissing : Bool
  deriving DecidableEq, Repr, Inhabited

namespace Token

/-- A stand-in for a token that was expected at a position. -/
def missing (kind : Kind) (position : Nat) : Token :=
  ⟨kind, "", none, .empty position, true⟩

/-- A token by its kind and, where tokens of its kind differ, its text. -/
def display (t : Token) : String :=
  match t.kind with
  | .string | .identifier | .number => s!"{t.kind} ({t.text})"
  | kind => kind.name

/-- The line of a token in a printed tree: a literal shows its value. -/
def label (t : Token) : String :=
  if t.isMissing then s!"{t.kind} (missing)"
  else match t.literal? with
    | some value => s!"{t.kind} {value.display}"
    | none => t.display

end Token

end Scriptlet
