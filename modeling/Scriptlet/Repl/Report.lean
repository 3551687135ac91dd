import Scriptlet.Diagnostic
import Scriptlet.Text.Blank
import Scriptlet.Text.Line

/-!
# Showing diagnostics

A diagnostic is shown with the line it is about and a marker below the place.
The line is shown without its indentation, behind its number and a bar; the
marker line leads up to the place with dashes and underlines it with carets.
-/

namespace Scriptlet.Repl

/-- A text moved to the right end of a field, filled up in front. -/
def alignRight (fill : Char) (width : Nat) (text : List Char) : List Char :=
  List.replicate (width - text.length) fill ++ text

/-- The character is part of the indentation of a line. -/
def isIndentation (c : Char) : Bool := c == ' ' || c == '\t'

/-- The lines that show a diagnostic of a source text. -/
def report (source : List Char) (d : Diagnostic) : List String :=
  let place := Text.place source d.span.start
  let number := (toString place.number).toList
  let bar := alignRight ' ' (number.length + 2) ['|']
  let removed := Text.width (place.line.takeWhile isIndentation)
  let shown := Text.trimEnd (place.line.dropWhile isIndentation)
  let lead := alignRight '-' (place.offset - removed + 1) ['^']
  let rest := List.replicate (max d.span.length 1 - 1) '^'
  [s!"Error: {d.problem.name} ({d.problem.message})", String.ofList bar,
    String.ofList (number ++ [' ', '|', ' '] ++ shown),
    String.ofList (bar ++ [' '] ++ lead ++ rest)]

end Scriptlet.Repl
