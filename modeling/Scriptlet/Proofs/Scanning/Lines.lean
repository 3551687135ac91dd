import Scriptlet.Proofs.Scanning.Continuing

/-!
# Scanning line by line

Scanning looks at no position: from another position on it finds the same tokens and
reports the same, all of them moved. So a text whose literals are all closed and a text
on the lines behind it are scanned together as each of them is scanned alone, with what
stands behind moved by the width of what stands in front.
-/

namespace Scriptlet

/-- The same range, further behind in a source. -/
def Span.moved (n : Nat) (s : Span) : Span := ⟨s.start + n, s.stop + n⟩

/-- The same token, further behind in a source. -/
def Token.moved (n : Nat) (t : Token) : Token := { t with span := t.span.moved n }

/-- The same report, further behind in a source. -/
def Diagnostic.moved (n : Nat) (d : Diagnostic) : Diagnostic := { d with span := d.span.moved n }

namespace Scan

/-- The same scan, further behind in a source. -/
def moved (n : Nat) (scan : Scan) : Scan :=
  ⟨scan.tokens.map (Token.moved n), scan.diagnostics.map (Diagnostic.moved n)⟩

variable {n : Nat}

/-- What stands in front of a scan is moved with it. -/
theorem moved_cons (token? : Option Token) (diagnostic? : Option Diagnostic) (scan : Scan) :
    (cons token? diagnostic? scan).moved n =
      cons (token?.map (Token.moved n)) (diagnostic?.map (Diagnostic.moved n)) (scan.moved n) := by
  cases token? <;> cases diagnostic? <;> simp [cons, moved]

/-- A token is made at its place as it is made elsewhere. -/
theorem token?_moved (p : Pattern) (lexeme : List Char) (span : Span) :
    p.token? lexeme (span.moved n) = (p.token? lexeme span).map (Token.moved n) := by
  cases p <;> rfl

/-- From a position further behind, a text is scanned as before, and all is moved. -/
theorem scanFrom_moved (n position : Nat) (cs : List Char) :
    scanFrom 0 (position + n) cs = (scanFrom 0 position cs).moved n := by
  induction position, cs using scanFrom_induction with
  | ends position => rfl
  | stray position c cs first ih =>
    rw [scanFrom, first, moved_cons, ← ih]
    dsimp only [Diagnostic.badCharacter]
    rw [Nat.add_right_comm]
    rfl
  | front position p lexeme rest isLexeme first ih =>
    have made := token?_moved (n := n) p lexeme ⟨position, position + Text.width lexeme⟩
    rw [scanFrom_lexeme first isLexeme.ne_nil, moved_cons, ← ih, Nat.add_right_comm, ← made,
      Option.map_map]
    rfl

end Scan

/-- Scanning goes line by line. If all literals of a text are closed, the text in front of
a line feed and another text is scanned into its own tokens without their end and,
behind them, the tokens of the other text, moved by the width of what stands in front
of it; and its own reports are followed by those of the other text, moved likewise. -/
theorem tokenize_lineFeed (a b : String)
    (closed : ∀ d ∈ (tokenize a).diagnostics, d.problem ≠ .unterminatedString) :
    (∃ inner, (tokenize a).tokens = inner ++ [Scan.endOfFile a.utf8ByteSize] ∧
      (tokenize (a ++ "\n" ++ b)).tokens =
        inner ++ (tokenize b).tokens.map (Token.moved (a.utf8ByteSize + 1))) ∧
    (tokenize (a ++ "\n" ++ b)).diagnostics = (tokenize a).diagnostics ++
      (tokenize b).diagnostics.map (Diagnostic.moved (a.utf8ByteSize + 1)) := by
  have split : (a ++ "\n" ++ b).toList = a.toList ++ '\n' :: b.toList := by simp
  have joined : tokenize (a ++ "\n" ++ b) =
      (tokenize a).followedBy ((tokenize b).moved (a.utf8ByteSize + 1)) := by
    rw [tokenize, split, Scan.scanFrom_lineFeed 0 a.toList b.toList closed, Text.width_toList,
      Nat.add_assoc, Scan.scanFrom_moved]
    rfl
  obtain ⟨inner, tokens, -⟩ := (Scan.covers_scanFrom 0 a.toList).ends
  rw [Nat.zero_add, Text.width_toList] at tokens
  replace tokens : (tokenize a).tokens = inner ++ [Scan.endOfFile a.utf8ByteSize] := tokens
  rw [joined]
  refine ⟨⟨inner, tokens, ?_⟩, rfl⟩
  rw [Scan.followedBy, tokens, List.dropLast_concat]
  rfl

/-- A literal over two lines, a stray character and a comment that ends in a backslash
and a quote stand in front of a literal that is not closed. -/
theorem tokenize_lineFeed_commentSample :
    (∀ d ∈ (tokenize "x = \"ü\n\" # // \\\"").diagnostics, d.problem ≠ .unterminatedString) ∧
    (tokenize ("x = \"ü\n\" # // \\\"" ++ "\n" ++ "= \"")).diagnostics =
      [.badCharacter 10 '#', ⟨.unterminatedString, ⟨20, 21⟩⟩] := by
  have closed : ∀ d ∈ (tokenize "x = \"ü\n\" # // \\\"").diagnostics,
      d.problem ≠ .unterminatedString := by decide
  refine ⟨closed, ?_⟩
  rw [(tokenize_lineFeed _ "= \"" closed).2]
  decide

end Scriptlet
