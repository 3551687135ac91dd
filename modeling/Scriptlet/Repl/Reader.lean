import Scriptlet.Syntax.Source
import Scriptlet.Text.Blank

/-!
# Reading submissions line by line

A submission may take several lines. Lines are gathered until the text could
not be completed by another one, or until a blank line ends it. Between
submissions blank lines are ignored and a line that starts with a number sign is
a command.
-/

namespace Scriptlet.Repl

/-- What a line of input means. -/
inductive Reading where
  /-- A blank line between submissions. -/
  | ignored
  /-- A command, without its number sign and the blanks around it. -/
  | command (name : String)
  /-- The text gathered so far needs further lines. -/
  | pending (text : String)
  /-- The text gathered is a submission. -/
  | submission (source : Syntax.Source)

/-- Reads a line behind the text gathered so far, which is empty between
submissions. -/
def read (pending line : String) : Reading :=
  let isBlank := line.toList.all Text.isBlank
  match pending.isEmpty, Text.trim line.toList with
  | true, [] => .ignored
  | true, '#' :: name => .command (String.ofList name)
  | _, _ =>
    let text := pending ++ line ++ "\n"
    let source := Syntax.Source.ofText text
    if !isBlank && source.isIncomplete then .pending text else .submission source

end Scriptlet.Repl
