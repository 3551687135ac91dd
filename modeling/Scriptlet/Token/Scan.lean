import Scriptlet.Token.Pattern

/-!
# Scanning a source text

A source text becomes a list of tokens that ends in the end of file, together
with the diagnostics found on the way. Scanning never fails: a character that
starts no token is reported and skipped.
-/

namespace Scriptlet

/-- The tokens of a text and what is wrong with it. -/
structure Scan where
  tokens : List Token
  diagnostics : List Diagnostic
  deriving DecidableEq, Repr

namespace Scan

/-- The token behind the last character. -/
def endOfFile (position : Nat) : Token := ⟨.eof, "", none, .empty position, false⟩

/-- Puts what one lexeme contributes in front of what follows it. -/
def cons (token? : Option Token) (diagnostic? : Option Diagnostic) (rest : Scan) : Scan :=
  ⟨token?.toList ++ rest.tokens, diagnostic?.toList ++ rest.diagnostics⟩

/-- Scans the characters from a position on. The first `skip` of them belong to
a lexeme that is already read. -/
def scanFrom : (skip position : Nat) → List Char → Scan
  | _, position, [] => ⟨[endOfFile position], []⟩
  | skip + 1, position, c :: cs => scanFrom skip (position + c.utf8Size) cs
  | 0, position, c :: cs =>
    match Pattern.first? (c :: cs) with
    | some (pattern, n) =>
      let lexeme := (c :: cs).take n
      let span : Span := ⟨position, position + Text.width lexeme⟩
      cons (pattern.token? lexeme span) ((pattern.problem? lexeme).map (⟨·, span⟩))
        (scanFrom (n - 1) (position + c.utf8Size) cs)
    | none =>
      cons none (some (.badCharacter position c)) (scanFrom 0 (position + c.utf8Size) cs)

/-- Skipped characters only move the position. -/
theorem scanFrom_skip (n position : Nat) (cs : List Char) :
    scanFrom n position cs = scanFrom 0 (position + Text.width (cs.take n)) (cs.drop n) := by
  induction cs generalizing n position with
  | nil => cases n <;> simp [scanFrom]
  | cons c cs ih =>
    cases n with
    | zero => simp
    | succ n =>
      simp only [scanFrom, List.take_succ_cons, List.drop_succ_cons, Text.width_cons]
      rw [ih, Nat.add_assoc]

end Scan

/-- Splits a source text into tokens. -/
def tokenize (source : String) : Scan := Scan.scanFrom 0 0 source.toList

end Scriptlet
