import Scriptlet.Proofs.Evaluation.Arithmetic
import Scriptlet.Proofs.Renaming.Sessions
import Scriptlet.Proofs.Scanning.Writing

/-!
# Printed integers read back

An integer is printed in decimal notation, with a sign in front if it is negative. There
are no negative literals: what is read back is a literal, and for a negative integer the
negation of one. The literal has to be an integer itself, so all integers are read back
but the least one, of which the digits alone are too large.
-/

namespace Scriptlet

open Pattern Syntax

/-- An integer is printed as its digits, with a sign in front of them if it is negative. -/
theorem Value.toList_display_int (n : Int32) : (Value.int n).display.toList =
    (if n.toInt < 0 then ['-'] else []) ++ Nat.toDigits 10 n.toInt.natAbs := by
  show n.toInt.repr.toList = _
  cases n.toInt with
  | ofNat k => simp [Int.repr]
  | negSucc k => simp [Int.repr, Int.negSucc_lt_zero]

section

variable {k : Nat}

/-- Digits are a lexeme. -/
theorem describes_toDigits (k : Nat) : digits.Describes (Nat.toDigits 10 k) := by
  have allDigits : ∀ c ∈ Nat.toDigits 10 k, c.isDigit = true :=
    fun _ hc => Nat.isDigit_of_mem_toDigits (by decide) (by decide) hc
  cases split : Nat.toDigits 10 k with
  | nil => exact absurd split Nat.toDigits_ne_nil
  | cons c cs =>
    rw [split, List.forall_mem_cons] at allDigits
    exact .digits allDigits.1 allDigits.2

/-- The literal of a number. -/
def Token.ofNumber (position k : Nat) : Token :=
  (Writing.number _ (describes_toDigits k)).token position

/-- Digits that stand for an integer are its literal. -/
theorem literal?_ofNumber (position : Nat) (fits : k ≤ 2147483647) :
    (Token.ofNumber position k).literal? = some (.int (Int32.ofNat k)) := by
  have value : digitsValue (Nat.toDigits 10 k) = k :=
    Nat.ofDigitChars_toDigits (by decide) (by decide)
  rw [Token.ofNumber, Writing.token, Writing.value?_number, integer?, value]
  exact if_pos fits

/-- Digits at the end of a text are scanned as their literal. -/
theorem scanFrom_toDigits (position : Nat) (fits : k ≤ 2147483647) :
    ∃ behind, Scan.scanFrom 0 position (Nat.toDigits 10 k) =
      ⟨[.ofNumber position k, Scan.endOfFile behind], []⟩ := by
  have scanned := @Writing.scanFrom_text (.number _ (describes_toDigits k)) position [] nofun
  have small : (Token.ofNumber position k).excess? = none := by
    simp [Token.excess?, literal?_ofNumber position fits]
  rw [List.append_nil] at scanned
  refine ⟨position + Text.width (Nat.toDigits 10 k), scanned.trans ?_⟩
  show Scan.cons (some (.ofNumber position k)) (Token.ofNumber position k).excess? _ = _
  rw [small]
  rfl

end

/-- The sign in front of digits. -/
def Token.minus : Token := ⟨.dash, "-", none, ⟨0, 1⟩, false⟩

/-- The tree of a printed integer. -/
def Syntax.Expr.ofInt (n : Int32) : Expr :=
  if n.toInt < 0 then .unary .minus (.literal (.ofNumber 1 n.toInt.natAbs))
  else .literal (.ofNumber 0 n.toInt.natAbs)

variable {n : Int32}

/-- The digits of every integer but the least one stand for an integer. -/
theorem natAbs_toInt_le (other : n ≠ Int32.minValue) : n.toInt.natAbs ≤ 2147483647 := by
  have lower : Int32.minValue.toInt ≤ n.toInt := n.le_toInt
  have upper : n.toInt ≤ Int32.maxValue.toInt := n.toInt_le
  have apart : n.toInt ≠ Int32.minValue.toInt := fun same => other (Int32.toInt_inj.1 same)
  rw [show Int32.minValue.toInt = -2147483648 from rfl] at lower apart
  rw [show Int32.maxValue.toInt = 2147483647 from rfl] at upper
  omega

/-- A printed integer is parsed without a report, unless it is the least one. -/
theorem Syntax.Source.ofText_display_int (other : n ≠ Int32.minValue) :
    (Source.ofText (Value.int n).display).diagnostics = [] ∧
      (Source.ofText (Value.int n).display).script.statement = .expression (.ofInt n) := by
  have fits := natAbs_toInt_le other
  simp only [Source.ofText, tokenize, Value.toList_display_int, Expr.ofInt]
  split
  · have scanned (cs : List Char) :=
      @Scan.scanFrom_lexeme 0 (.fixed .dash) ['-'] cs rfl (List.cons_ne_nil _ _)
    obtain ⟨behind, digits⟩ := scanFrom_toDigits 1 fits
    rw [scanned, show 0 + Text.width ['-'] = 1 from rfl, digits]
    exact ⟨rfl, rfl⟩
  · obtain ⟨behind, digits⟩ := scanFrom_toDigits 0 fits
    rw [List.nil_append, digits]
    exact ⟨rfl, rfl⟩

/-- The literal of the digits is negated or not, as the sign says. -/
theorem Syntax.Expr.yields_ofInt (other : n ≠ Int32.minValue) : (Expr.ofInt n).Yields n := by
  have fits := natAbs_toInt_le other
  have digits (position : Nat) := Yields.literal (literal?_ofNumber position fits)
  have exact : (Int32.ofNat n.toInt.natAbs).toInt = n.toInt.natAbs :=
    Int32.toInt_ofNat_of_lt (by omega)
  rw [ofInt]
  split
  next negative =>
    have negated : n.toInt = -(Int32.ofNat n.toInt.natAbs).toInt := by omega
    exact .unary (f := fun z => -z) rfl (digits 1) (congrArg (· % 2 ^ 32) negated)
  next =>
    have same : Int32.ofNat n.toInt.natAbs = n := Int32.toInt_inj.1 (by omega)
    rw [same] at digits
    exact digits 0

/-- The tree of a printed integer is made of integers and signs. -/
theorem Syntax.Expr.arithmetic_ofInt (other : n ≠ Int32.minValue) : (Expr.ofInt n).Arithmetic := by
  have digits (position : Nat) :=
    Arithmetic.literal (literal?_ofNumber position (natAbs_toInt_le other))
  rw [ofInt]
  split
  · exact .unary (f := fun z => -z) rfl (digits 1)
  · exact digits 0

namespace Session

/-- Submitting what is printed for an integer gives no report and comes to the integer in
two steps, without printing or reading anything. -/
def ReadsBack (s : Session) (n : Int32) : Prop :=
  (s.compile (.ofText (Value.int n).display)).1.diagnostics = [] ∧
  ∀ inputs steps, 2 ≤ steps → ∃ after,
    s.submit steps inputs (.ofText (Value.int n).display) =
      some ((s.compile (.ofText (Value.int n).display)).1, ⟨.finished (.int n), [], inputs⟩, after)

/-- Every integer but the least one is read back. -/
theorem readsBack_of_ne (s : Session) (other : n ≠ Int32.minValue) : s.ReadsBack n := by
  obtain ⟨clean, whole⟩ := Source.ofText_display_int other
  obtain ⟨bound, computes⟩ := (Expr.arithmetic_ofInt other).computes
  have submitted (inputs : List String) :=
    submit_expression (s := s) clean whole computes.resolves
      (computes.yields (Expr.yields_ofInt other) (.start s.store inputs s.draws))
  constructor
  · obtain ⟨submission, after, -, submits⟩ := submitted []
    obtain ⟨rfl, memory, run, -⟩ := exists_of_submit (submits 2 (Nat.le_refl 2))
    exact Submission.diagnostics_of_evaluate run nofun
  · intro inputs steps enough
    obtain ⟨submission, after, -, submits⟩ := submitted inputs
    have run := submits steps enough
    obtain ⟨rfl, -⟩ := exists_of_submit run
    exact ⟨after, run⟩

/-- The digits of the least integer are reported to be too large. -/
theorem diagnostics_display_minValue :
    (Source.ofText (Value.int Int32.minValue).display).diagnostics =
      [⟨.invalidNumber "2147483648" .int, ⟨1, 11⟩⟩] := by
  decide +kernel

/-- The least integer is read back in no session. -/
theorem not_readsBack_minValue (s : Session) : ¬ s.ReadsBack Int32.minValue := by
  rintro ⟨clean, -⟩
  have reported : (Source.ofText (Value.int Int32.minValue).display).diagnostics = [] :=
    (List.append_eq_nil_iff.1 clean).1
  rw [diagnostics_display_minValue] at reported
  cases reported

/-- Printed integers read back. In every session, what is printed for an integer of 32 bits
is a source without problems that evaluates to the integer, exactly if the integer is not
the least one. -/
theorem readsBack_iff (s : Session) (n : Int32) : s.ReadsBack n ↔ n ≠ Int32.minValue :=
  ⟨fun reads least => s.not_readsBack_minValue (least ▸ reads), s.readsBack_of_ne⟩

/-- The least integer is printed, but not read back in a new session. -/
theorem minValue_not_readsBack : (Value.int Int32.minValue).display = "-2147483648" ∧
    ¬ (start (.ofSeed 0)).ReadsBack Int32.minValue :=
  ⟨by decide, not_readsBack_minValue _⟩

end Session

end Scriptlet
