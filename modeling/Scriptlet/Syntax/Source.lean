import Scriptlet.Syntax.Node
import Scriptlet.Syntax.Parser
import Scriptlet.Token.Scan

/-!
# Parsed source texts

A source text together with its tree and everything that scanning and parsing
found wrong with it.
-/

namespace Scriptlet.Syntax

/-- A source text and its tree. -/
structure Source where
  text : String
  script : Script
  /-- The problems of scanning, then those of parsing. -/
  diagnostics : List Diagnostic
  deriving Repr

namespace Source

/-- Scans and parses a text. -/
def ofText (text : String) : Source :=
  let scan := tokenize text
  let parsed := parse scan.tokens
  ⟨text, parsed.1, scan.diagnostics ++ parsed.2⟩

/-- All that is wrong with the text is that it ends too early, so that further
lines could still complete it. -/
def isIncomplete (s : Source) : Bool :=
  !s.diagnostics.isEmpty && s.diagnostics.all Diagnostic.isUnexpectedEnd

/-- The printed tree. -/
def render (s : Source) : String := s.script.node.render

end Source

end Scriptlet.Syntax
