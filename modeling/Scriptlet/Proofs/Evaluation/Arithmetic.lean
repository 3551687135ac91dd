import Mathlib.Data.Int.ModEq
import Scriptlet.Proofs.Evaluation.Outcomes
import Scriptlet.Proofs.Resolving.Correct

/-!
# Integer arithmetic

What an expression made of integers, signs and parentheses stands for is said twice: where
integers have no bounds, and on words of 32 bits, where every result is the one word that
is congruent to the exact result modulo 2 ^ 32. Sums, differences and products do not tell
the two apart. A division does: it needs the words, and it is the only thing that fails.
-/

namespace Scriptlet

/-- Modulo 2 ^ 32 there is exactly one word for an integer. -/
theorem toInt_modEq_iff {n : Int32} {z : Int} : n.toInt ≡ z [ZMOD 2 ^ 32] ↔ n = Int32.ofInt z := by
  constructor
  · intro congruent
    have residue : n.toInt.bmod (2 ^ 32) = z.bmod (2 ^ 32) := by
      rw [← Int.emod_bmod, ← Int.emod_bmod z]
      exact congrArg (Int.bmod · (2 ^ 32)) congruent
    rw [← Int32.ofInt_toInt n, Int32.ofInt_eq_iff_bmod_eq_toInt, residue, Int32.toInt_ofInt]
    rfl
  · rintro rfl
    rw [Int32.toInt_ofInt]
    exact Int.bmod_emod

/-- Every integer is congruent to its word. -/
theorem ofInt_modEq (z : Int) : (Int32.ofInt z).toInt ≡ z [ZMOD 2 ^ 32] := toInt_modEq_iff.2 rfl

/-- The quotient toward zero: the remainder is smaller than the divisor and not on the
other side of zero than the dividend. -/
def IsQuotient (n d q : Int) : Prop :=
  ∃ r, n = q * d + r ∧ r.natAbs < d.natAbs ∧ (r = 0 ∨ r.sign = n.sign)

/-- There is one quotient by each divisor but zero. -/
theorem isQuotient_iff {n d q : Int} : IsQuotient n d q ↔ d ≠ 0 ∧ n.tdiv d = q := by
  constructor
  · rintro ⟨r, hsplit, small, side⟩
    have nonzero : d ≠ 0 := by omega
    refine ⟨nonzero, ?_⟩
    rcases Int.le_total 0 n with sign | sign
    · have above : 0 ≤ r := by
        rcases side with rfl | side
        · exact Int.le_refl 0
        · exact Int.sign_nonneg_iff.1 (side ▸ Int.sign_nonneg_iff.2 sign)
      have sum : r + d * q = n := by rw [hsplit, Int.mul_comm, Int.add_comm]
      exact ((Int.tdiv_tmod_unique sign nonzero).2 ⟨sum, above, by omega⟩).1
    · -- Mirrored at zero, the dividend and the remainder are not negative.
      have below : r ≤ 0 := by
        rcases side with rfl | side
        · exact Int.le_refl 0
        · exact Int.sign_nonpos_iff.1 (side ▸ Int.sign_nonpos_iff.2 sign)
      have sum : -r + d * -q = -n := by rw [hsplit, Int.mul_neg, Int.mul_comm]; omega
      have mirrored := ((Int.tdiv_tmod_unique (Int.neg_nonneg_of_nonpos sign) nonzero).2
        ⟨sum, Int.neg_nonneg_of_nonpos below, by omega⟩).1
      rw [Int.neg_tdiv] at mirrored
      exact Int.neg_inj.1 mirrored
  · rintro ⟨nonzero, rfl⟩
    refine ⟨n.tmod d, ?_, ?_, ?_⟩
    · rw [Int.mul_comm, Int.mul_tdiv_add_tmod]
    · rw [Int.natAbs_tmod]
      exact Nat.mod_lt _ (Int.natAbs_pos.2 nonzero)
    · by_cases divides : d ∣ n
      · exact .inl (Int.tmod_eq_zero_of_dvd divides)
      · exact .inr ((Int.sign_tmod n d).trans (if_neg divides))

/-- What a sign makes of the integer behind it. -/
def Kind.onInteger? : Kind → Option (Int → Int)
  | .plus => some fun z => z
  | .dash => some fun z => -z
  | .tilde => some fun z => -z - 1
  | _ => none

/-- What a sign makes of the integers on both of its sides, unless it divides them. -/
def Kind.onIntegers? : Kind → Option (Int → Int → Int)
  | .plus => some fun z w => z + w
  | .dash => some fun z w => z - w
  | .star => some fun z w => z * w
  | _ => none

/-- The fault of a division that cannot be carried out. -/
def Fault.ofDivisor (d : Int) : Fault := if d = 0 then .divisionByZero else .overflow "/"

/-- A sign keeps congruences. -/
theorem Kind.onInteger?_modEq {k : Kind} {f : Int → Int} (sign : k.onInteger? = some f)
    {m z w : Int} (h : z ≡ w [ZMOD m]) : f z ≡ f w [ZMOD m] := by
  cases k <;> cases sign
  case plus => exact h
  case dash => exact h.neg
  case tilde => exact h.neg.sub_right 1

/-- A sign between two integers keeps congruences. -/
theorem Kind.onIntegers?_modEq {k : Kind} {f : Int → Int → Int} (sign : k.onIntegers? = some f)
    {m z w z' w' : Int} (h : z ≡ w [ZMOD m]) (h' : z' ≡ w' [ZMOD m]) :
    f z z' ≡ f w w' [ZMOD m] := by
  cases k <;> cases sign
  case plus => exact h.add h'
  case dash => exact h.sub h'
  case star => exact h.mul h'

/-- The operator of a sign computes on words what the sign makes of integers. -/
theorem UnaryOperator.exists_onInteger {k : Kind} {f : Int → Int} (sign : k.onInteger? = some f) :
    ∃ o, find? k .int = some o ∧ o.result = .int ∧
      ∀ n : Int32, o.apply (.int n) = .ok (.int (Int32.ofInt (f n.toInt))) := by
  cases k <;> cases sign
  case plus => exact ⟨_, rfl, rfl, fun n => by rw [Int32.ofInt_toInt]; rfl⟩
  case dash => exact ⟨_, rfl, rfl, fun n => by rw [Int32.ofInt_neg, Int32.ofInt_toInt]; rfl⟩
  case tilde =>
    refine ⟨_, rfl, rfl, fun n => ?_⟩
    rw [Int32.ofInt_sub, Int32.ofInt_neg, Int32.ofInt_toInt]
    exact congrArg (Except.ok ∘ Value.int) (Int32.not_eq_neg_sub n)

namespace BinaryOperator

/-- The operator of a sign between two integers computes on words what the sign makes of
integers. -/
theorem exists_onIntegers {k : Kind} {f : Int → Int → Int} (sign : k.onIntegers? = some f) :
    ∃ o, find? k .int .int = some o ∧ o.result = .int ∧ o.decisive? = none ∧
      ∀ n m : Int32, o.apply (.int n) (.int m) = .ok (.int (Int32.ofInt (f n.toInt m.toInt))) := by
  cases k <;> cases sign
  case plus =>
    refine ⟨_, rfl, rfl, rfl, fun n m => ?_⟩
    rw [Int32.ofInt_add, Int32.ofInt_toInt, Int32.ofInt_toInt]
    rfl
  case dash =>
    refine ⟨_, rfl, rfl, rfl, fun n m => ?_⟩
    rw [Int32.ofInt_sub, Int32.ofInt_toInt, Int32.ofInt_toInt]
    rfl
  case star =>
    refine ⟨_, rfl, rfl, rfl, fun n m => ?_⟩
    rw [Int32.ofInt_mul, Int32.ofInt_toInt, Int32.ofInt_toInt]
    rfl

/-- The operator that divides. -/
def division : BinaryOperator := ⟨.slash, .division, .int, .int, .int⟩

variable {n d q : Int32}

/-- No division of words is carried out by zero, nor one whose quotient is no word. -/
theorem apply_division_impossible
    (impossible : d.toInt = 0 ∨ n.toInt = -2147483648 ∧ d.toInt = -1) :
    division.apply (.int n) (.int d) = .error (.ofDivisor d.toInt) := by
  show division.divide (.int n) (.int d) = _
  rcases impossible with zero | ⟨least, minus⟩
  · obtain rfl : d = 0 := Int32.toInt_inj.1 zero
    rfl
  · obtain rfl : n = Int32.minValue := Int32.toInt_inj.1 least
    obtain rfl : d = -1 := Int32.toInt_inj.1 minus
    rfl

/-- All other divisions of words are carried out. -/
theorem apply_division_possible
    (possible : ¬(d.toInt = 0 ∨ n.toInt = -2147483648 ∧ d.toInt = -1)) :
    division.apply (.int n) (.int d) = .ok (.int (n / d)) ∧
      IsQuotient n.toInt d.toInt (n / d).toInt := by
  obtain ⟨nonzero, fits⟩ := not_or.1 possible
  have nonzero' : d ≠ 0 := fun zero => nonzero (zero ▸ rfl)
  have fits' : ¬(n = Int32.minValue ∧ d = -1) := by
    rintro ⟨rfl, rfl⟩
    exact fits ⟨rfl, rfl⟩
  have exact : (n / d).toInt = n.toInt.tdiv d.toInt := by
    by_cases least : n = Int32.minValue
    · exact Int32.toInt_div_of_ne_right n d fun minus => fits' ⟨least, minus⟩
    · exact Int32.toInt_div_of_ne_left n d least
  refine ⟨?_, isQuotient_iff.2 ⟨nonzero, exact.symm⟩⟩
  show (if d = 0 then _ else if n = Int32.minValue ∧ d = -1 then _ else _) = _
  rw [if_neg nonzero', if_neg fits']
  rfl

/-- Words whose quotient is a word are divided into that. -/
theorem apply_division (h : IsQuotient n.toInt d.toInt q.toInt) :
    division.apply (.int n) (.int d) = .ok (.int q) := by
  obtain ⟨nonzero, quotient⟩ := isQuotient_iff.1 h
  have possible : ¬(d.toInt = 0 ∨ n.toInt = -2147483648 ∧ d.toInt = -1) := by
    rintro (zero | ⟨least, minus⟩)
    · exact nonzero zero
    · -- The quotient would be the integer behind the greatest word.
      rw [least, minus] at quotient
      have bound : q.toInt ≤ 2147483647 := q.toInt_le
      rw [← quotient] at bound
      exact absurd bound (by decide)
  obtain ⟨divided, quotient'⟩ := apply_division_possible possible
  have same : n / d = q :=
    Int32.toInt_inj.1 ((isQuotient_iff.1 quotient').2.symm.trans quotient)
  rw [divided, same]

end BinaryOperator

namespace Syntax

/-- The expressions that are made of integers, signs and parentheses. -/
inductive Expr.Arithmetic : Expr → Prop
  | literal {token : Token} {n : Int32} (valued : token.literal? = some (.int n)) :
      Arithmetic (.literal token)
  | grouped {opening closing : Token} {e : Expr} (part : Arithmetic e) :
      Arithmetic (.grouped opening e closing)
  | unary {operator : Token} {e : Expr} {f : Int → Int}
      (sign : operator.kind.onInteger? = some f) (part : Arithmetic e) :
      Arithmetic (.unary operator e)
  | binary {l r : Expr} {operator : Token} {f : Int → Int → Int}
      (sign : operator.kind.onIntegers? = some f) (left : Arithmetic l) (right : Arithmetic r) :
      Arithmetic (.binary l operator r)
  | division {l r : Expr} {operator : Token} (sign : operator.kind = .slash)
      (left : Arithmetic l) (right : Arithmetic r) : Arithmetic (.binary l operator r)

/-- What an expression without divisions stands for where integers have no bounds. -/
inductive Expr.Denotes : Expr → Int → Prop
  | literal {token : Token} {n : Int32} (valued : token.literal? = some (.int n)) :
      Denotes (.literal token) n.toInt
  | grouped {opening closing : Token} {e : Expr} {z : Int} (part : Denotes e z) :
      Denotes (.grouped opening e closing) z
  | unary {operator : Token} {e : Expr} {f : Int → Int} {z : Int}
      (sign : operator.kind.onInteger? = some f) (part : Denotes e z) :
      Denotes (.unary operator e) (f z)
  | binary {l r : Expr} {operator : Token} {f : Int → Int → Int} {z w : Int}
      (sign : operator.kind.onIntegers? = some f) (left : Denotes l z) (right : Denotes r w) :
      Denotes (.binary l operator r) (f z w)

/-- What an expression stands for on words: no result but a quotient is exact, each is the
word that is congruent to the exact result. -/
inductive Expr.Yields : Expr → Int32 → Prop
  | literal {token : Token} {n : Int32} (valued : token.literal? = some (.int n)) :
      Yields (.literal token) n
  | grouped {opening closing : Token} {e : Expr} {n : Int32} (part : Yields e n) :
      Yields (.grouped opening e closing) n
  | unary {operator : Token} {e : Expr} {f : Int → Int} {a n : Int32}
      (sign : operator.kind.onInteger? = some f) (part : Yields e a)
      (wraps : n.toInt ≡ f a.toInt [ZMOD 2 ^ 32]) : Yields (.unary operator e) n
  | binary {l r : Expr} {operator : Token} {f : Int → Int → Int} {a b n : Int32}
      (sign : operator.kind.onIntegers? = some f) (left : Yields l a) (right : Yields r b)
      (wraps : n.toInt ≡ f a.toInt b.toInt [ZMOD 2 ^ 32]) : Yields (.binary l operator r) n
  | division {l r : Expr} {operator : Token} {n d q : Int32} (sign : operator.kind = .slash)
      (left : Yields l n) (right : Yields r d)
      (quotient : IsQuotient n.toInt d.toInt q.toInt) : Yields (.binary l operator r) q

/-- From left to right, the first division of an expression that cannot be carried out is
one of this dividend by this divisor. -/
inductive Expr.Stuck : Expr → Int → Int → Prop
  | grouped {opening closing : Token} {e : Expr} {n d : Int} (part : Stuck e n d) :
      Stuck (.grouped opening e closing) n d
  | unary {operator : Token} {e : Expr} {n d : Int} (part : Stuck e n d) :
      Stuck (.unary operator e) n d
  | left {l r : Expr} {operator : Token} {n d : Int} (part : Stuck l n d) :
      Stuck (.binary l operator r) n d
  | right {l r : Expr} {operator : Token} {a : Int32} {n d : Int} (done : Yields l a)
      (part : Stuck r n d) : Stuck (.binary l operator r) n d
  | division {l r : Expr} {operator : Token} {n d : Int32} (sign : operator.kind = .slash)
      (left : Yields l n) (right : Yields r d)
      (impossible : d.toInt = 0 ∨ n.toInt = -2147483648 ∧ d.toInt = -1) :
      Stuck (.binary l operator r) n.toInt d.toInt

namespace Expr

variable {e l r : Expr} {operator : Token} {bound left right : Bound.Expr}

/-- What an expression without divisions stands for on words is congruent to what it
stands for where integers have no bounds. -/
theorem Denotes.exists_yields {z : Int} (h : e.Denotes z) :
    ∃ n : Int32, e.Yields n ∧ n.toInt ≡ z [ZMOD 2 ^ 32] := by
  induction h with
  | @literal token n valued => exact ⟨n, .literal valued, rfl⟩
  | grouped _ ih =>
    obtain ⟨n, part, same⟩ := ih
    exact ⟨n, .grouped part, same⟩
  | unary sign _ ih =>
    obtain ⟨a, part, same⟩ := ih
    exact ⟨_, .unary sign part (ofInt_modEq _),
      (ofInt_modEq _).trans (Kind.onInteger?_modEq sign same)⟩
  | binary sign _ _ ih ih' =>
    obtain ⟨a, left, same⟩ := ih
    obtain ⟨b, right, same'⟩ := ih'
    exact ⟨_, .binary sign left right (ofInt_modEq _),
      (ofInt_modEq _).trans (Kind.onIntegers?_modEq sign same same')⟩

/-- On words an expression stands for something or has a first division that cannot be
carried out. -/
theorem Arithmetic.progress (h : e.Arithmetic) : (∃ n, e.Yields n) ∨ ∃ n d, e.Stuck n d := by
  induction h with
  | literal valued => exact .inl ⟨_, .literal valued⟩
  | grouped _ ih =>
    rcases ih with ⟨n, part⟩ | ⟨n, d, part⟩
    · exact .inl ⟨n, .grouped part⟩
    · exact .inr ⟨n, d, .grouped part⟩
  | unary sign _ ih =>
    rcases ih with ⟨n, part⟩ | ⟨n, d, part⟩
    · exact .inl ⟨_, .unary sign part (ofInt_modEq _)⟩
    · exact .inr ⟨n, d, .unary part⟩
  | binary sign _ _ ih ih' =>
    rcases ih with ⟨a, left⟩ | ⟨n, d, left⟩
    · rcases ih' with ⟨b, right⟩ | ⟨n, d, right⟩
      · exact .inl ⟨_, .binary sign left right (ofInt_modEq _)⟩
      · exact .inr ⟨n, d, .right left right⟩
    · exact .inr ⟨n, d, .left left⟩
  | division sign _ _ ih ih' =>
    rcases ih with ⟨n, left⟩ | ⟨n, d, left⟩
    · rcases ih' with ⟨d, right⟩ | ⟨n, d, right⟩
      · by_cases impossible : d.toInt = 0 ∨ n.toInt = -2147483648 ∧ d.toInt = -1
        · exact .inr ⟨_, _, .division sign left right impossible⟩
        · have quotient := (BinaryOperator.apply_division_possible impossible).2
          exact .inl ⟨_, .division sign left right quotient⟩
      · exact .inr ⟨n, d, .right left right⟩
    · exact .inr ⟨n, d, .left left⟩

/-- A division that cannot be carried out is one by zero or the one whose quotient is the
integer behind the greatest word. -/
theorem Stuck.impossible {n d : Int} (h : e.Stuck n d) : d = 0 ∨ n = -2147483648 ∧ d = -1 := by
  induction h with
  | division sign left right impossible => exact impossible
  | grouped _ ih | unary _ ih | left _ ih | right _ _ ih => exact ih

/-- What resolving makes of an expression, wherever it stands, and what evaluating that
comes to, on any memory. -/
structure Computes (e : Expr) (bound : Bound.Expr) : Prop where
  resolves (σ : Scoping) : e.resolve.run σ = ⟨bound, σ, []⟩
  integer : bound.type = .int
  yields {n : Int32} (h : e.Yields n) (memory : Memory) :
    bound.evaluate.on memory = (.ok (.int n), memory)
  stuck {n d : Int} (h : e.Stuck n d) (memory : Memory) :
    bound.evaluate.on memory = (.error (.ofDivisor d), memory)

namespace Computes

open Reporting Resolving Evaluating

/-- An integer is required to have a value. -/
theorem resolves_asValue (h : e.Computes bound) (span : Span) (σ : Scoping) :
    (asValue span bound).run σ = ⟨bound, σ, []⟩ :=
  run_asValue (h.integer ▸ Ty.noConfusion)

/-- Parentheses change nothing. -/
theorem grouped (opening closing : Token) (h : e.Computes bound) :
    (Expr.grouped opening e closing).Computes bound where
  resolves σ := by simp [resolve, h.resolves, h.resolves_asValue]
  integer := h.integer
  yields
    | .grouped part => h.yields part
  stuck
    | .grouped part => h.stuck part

/-- A sign computes on words what it makes of integers. -/
theorem unary {f : Int → Int} (sign : operator.kind.onInteger? = some f) (h : e.Computes bound) :
    ∃ bound', (Expr.unary operator e).Computes bound' := by
  obtain ⟨o, row, result, applies⟩ := UnaryOperator.exists_onInteger sign
  refine ⟨.unary o bound, fun σ => ?_, result, ?_, ?_⟩
  · simp [resolve, h.resolves, h.resolves_asValue, h.integer, row]
  · intro n yields memory
    cases yields with
    | unary sign' part wraps =>
      cases sign.symm.trans sign'
      rw [Bound.Expr.evaluate, on_bind_of_ok (h.yields part memory), applies,
        ← toInt_modEq_iff.1 wraps, on_lift]
  · intro n d stuck memory
    cases stuck with
    | unary part => rw [Bound.Expr.evaluate, on_bind_of_error (h.stuck part memory)]

/-- A sign between two expressions computes on words what its operator does, if that
takes the division of words for one of integers. -/
theorem binary_of_row {o : BinaryOperator}
    (row : BinaryOperator.find? operator.kind .int .int = some o) (result : o.result = .int)
    (both : o.decisive? = none)
    (applies : ∀ n, (Expr.binary l operator r).Yields n →
      ∃ a b, l.Yields a ∧ r.Yields b ∧ o.apply (.int a) (.int b) = .ok (.int n))
    (refuses : operator.kind = .slash → o = .division)
    (h : l.Computes left) (h' : r.Computes right) :
    (Expr.binary l operator r).Computes (.binary left o right) := by
  -- Neither of the operands decides alone, so both are evaluated.
  have evaluates : (Bound.Expr.binary left o right).evaluate = (do
      let a ← left.evaluate
      let b ← right.evaluate
      lift (o.apply a b)) := by
    rw [Bound.Expr.evaluate, both]
  refine ⟨fun σ => ?_, result, fun yields memory => ?_, fun stuck memory => ?_⟩
  · simp [resolve, h.resolves, h'.resolves, h.resolves_asValue, h'.resolves_asValue, h.integer,
      h'.integer, row]
  · obtain ⟨a, b, part, part', value⟩ := applies _ yields
    rw [evaluates, on_bind_of_ok (h.yields part memory), on_bind_of_ok (h'.yields part' memory),
      value, on_lift]
  · rw [evaluates]
    cases stuck with
    | left part => rw [on_bind_of_error (h.stuck part memory)]
    | right done part =>
      rw [on_bind_of_ok (h.yields done memory), on_bind_of_error (h'.stuck part memory)]
    | division sign part part' impossible =>
      rw [on_bind_of_ok (h.yields part memory), on_bind_of_ok (h'.yields part' memory),
        refuses sign, BinaryOperator.apply_division_impossible impossible, on_lift]

/-- A sign between two integers computes on words what it makes of integers. -/
theorem binary {f : Int → Int → Int} (sign : operator.kind.onIntegers? = some f)
    (h : l.Computes left) (h' : r.Computes right) :
    ∃ bound', (Expr.binary l operator r).Computes bound' := by
  have other : operator.kind ≠ .slash := fun slash => by
    rw [slash] at sign
    cases sign
  obtain ⟨o, row, result, both, applies⟩ := BinaryOperator.exists_onIntegers sign
  refine ⟨_, binary_of_row row result both (fun n yields => ?_) (absurd · other) h h'⟩
  cases yields with
  | @binary _ _ _ _ a b _ sign' part part' wraps =>
    cases sign.symm.trans sign'
    exact ⟨a, b, part, part', by rw [applies, ← toInt_modEq_iff.1 wraps]⟩
  | division slash => exact absurd slash other

/-- A division computes the quotient toward zero. -/
theorem division (sign : operator.kind = .slash) (h : l.Computes left) (h' : r.Computes right) :
    (Expr.binary l operator r).Computes (.binary left .division right) := by
  refine binary_of_row (by rw [sign]; rfl) rfl rfl (fun q yields => ?_) (fun _ => rfl) h h'
  cases yields with
  | binary sign' =>
    rw [sign] at sign'
    cases sign'
  | @division _ _ _ n d _ _ part part' quotient =>
    exact ⟨n, d, part, part', BinaryOperator.apply_division quotient⟩

end Computes

/-- Every expression made of integers, signs and parentheses is computed as it stands. -/
theorem Arithmetic.computes (h : e.Arithmetic) : ∃ bound, e.Computes bound := by
  induction h with
  | @literal token n valued =>
    refine ⟨.literal (.int n), fun σ => ?_, rfl, fun yields memory => ?_, nofun⟩
    · rw [resolve, valued]
      rfl
    · cases yields with
      | literal valued' =>
        cases valued.symm.trans valued'
        rfl
  | grouped _ ih =>
    obtain ⟨bound, part⟩ := ih
    exact ⟨bound, part.grouped _ _⟩
  | unary sign _ ih =>
    obtain ⟨bound, part⟩ := ih
    exact part.unary sign
  | binary sign _ _ ih ih' =>
    obtain ⟨left, part⟩ := ih
    obtain ⟨right, part'⟩ := ih'
    exact part.binary sign part'
  | division sign _ _ ih ih' =>
    obtain ⟨left, part⟩ := ih
    obtain ⟨right, part'⟩ := ih'
    exact ⟨_, part.division sign part'⟩

/-- Evaluating leaves the memory alone. It gives a value exactly if the expression stands
for that, and a fault exactly if its first division that cannot be carried out is one by
zero, or the one whose quotient is no word. -/
theorem Arithmetic.evaluates (h : e.Arithmetic) (computes : e.Computes bound) (memory : Memory) :
    ∃ result, bound.evaluate.on memory = (result, memory) ∧
      (∀ n, result = .ok (.int n) ↔ e.Yields n) ∧
      (result = .error .divisionByZero ↔ ∃ n, e.Stuck n 0) ∧
      (result = .error (.overflow "/") ↔ e.Stuck (-2147483648) (-1)) ∧
      ((∃ n, e.Yields n) ∨ ∃ n d, e.Stuck n d) := by
  -- Whatever the expression comes to, evaluating it comes to nothing else.
  have value {result : Except Fault Value} (run : bound.evaluate.on memory = (result, memory))
      {n : Int32} (yields : e.Yields n) : result = .ok (.int n) :=
    congrArg Prod.fst (run.symm.trans (computes.yields yields memory))
  have fault {result : Except Fault Value} (run : bound.evaluate.on memory = (result, memory))
      {n d : Int} (stuck : e.Stuck n d) : result = .error (.ofDivisor d) :=
    congrArg Prod.fst (run.symm.trans (computes.stuck stuck memory))
  rcases h.progress with ⟨n, yields⟩ | ⟨n, d, stuck⟩
  · have run := computes.yields yields memory
    refine ⟨_, run, fun m => ⟨?_, value run⟩, ⟨nofun, fun ⟨m, stuck⟩ => fault run stuck⟩,
      ⟨nofun, fault run⟩, .inl ⟨n, yields⟩⟩
    rintro ⟨⟩
    exact yields
  · have run := computes.stuck stuck memory
    refine ⟨_, run, fun m => ⟨nofun, value run⟩,
      ⟨fun zero => ?_, fun ⟨m, stuck⟩ => fault run stuck⟩,
      ⟨fun overflow => ?_, fault run⟩, .inr ⟨n, d, stuck⟩⟩
    · rcases stuck.impossible with rfl | ⟨rfl, rfl⟩
      · exact ⟨n, stuck⟩
      · cases zero
    · rcases stuck.impossible with rfl | ⟨rfl, rfl⟩
      · cases overflow
      · exact stuck

end Expr

end Syntax

/-- A program that is one expression is over behind its second step. -/
theorem Program.run_expression {bound : Bound.Expr} {before after : Memory}
    {result : Except Fault Value} (h : bound.evaluate.on before = (result, after)) {steps : Nat}
    (enough : 2 ≤ steps) : Program.run [.expression bound] steps before = .halted result after := by
  obtain ⟨more, rfl⟩ := Nat.exists_eq_add_of_le enough
  refine Machine.advance_add ?_ more
  rw [Machine.advance, Machine.step]
  simp only [Machine.start, List.getElem?_cons_zero, Machine.execute, Evaluating.on_bind, h]
  cases result <;> rfl

/-- A submission of one expression that resolves wherever it stands, without a report,
comes to what the expression comes to. -/
theorem Session.submit_expression {s : Session} {source : Syntax.Source} {e : Syntax.Expr}
    {bound : Bound.Expr} {inputs : List String} {memory : Memory} {result : Except Fault Value}
    (clean : source.diagnostics = []) (whole : source.script.statement = .expression e)
    (resolves : ∀ σ, e.resolve.run σ = ⟨bound, σ, []⟩)
    (run : bound.evaluate.on (.start s.store inputs s.draws) = (result, memory)) :
    ∃ submission after, after.store = memory.store ∧ ∀ steps, 2 ≤ steps →
      s.submit steps inputs source = some (submission,
        ⟨.ofResult result, memory.console.printed.toList, memory.console.inputs⟩, after) := by
  have statement : (s.compile source).1.statement = .expression bound := by
    simp [compile, Submission.compile, whole, Syntax.Stmt.resolve, resolves]
  have problems : (s.compile source).1.diagnostics = [] := by
    simp [compile, Submission.compile, Submission.diagnostics, clean, whole, Syntax.Stmt.resolve,
      resolves]
  refine ⟨(s.compile source).1,
    ((s.compile source).2.behind memory).extend (s.compile source).1 (.ofResult result),
    by cases result <;> rfl, fun steps enough => ?_⟩
  have evaluated : (s.compile source).1.evaluate steps (.start s.store inputs s.draws) =
      some (.ofResult result, memory) := by
    refine (Submission.evaluate_eq_some_iff problems).2 ⟨result, ?_, rfl⟩
    rw [Submission.program, statement]
    exact Program.run_expression run enough
  rw [submit_eq, evaluated]
  rfl

/-- Integer arithmetic is exact modulo 2 ^ 32. An expression made of integers, signs and
parentheses, submitted alone, comes to an end in two steps, prints nothing and leaves the
inputs and the store alone. Without divisions it gives the only word that is congruent to
what it stands for where integers have no bounds. With divisions from left to right it
fails exactly if the first one that cannot be carried out is by zero, or divides the least
word by minus one, and otherwise each of them gives the quotient toward zero. -/
theorem Session.submit_arithmetic (s : Session) (inputs : List String) {source : Syntax.Source}
    {e : Syntax.Expr} (clean : source.diagnostics = [])
    (whole : source.script.statement = .expression e) (arithmetic : e.Arithmetic) :
    ∃ submission outcome after,
      (∀ steps, 2 ≤ steps →
        s.submit steps inputs source = some (submission, ⟨outcome, [], inputs⟩, after)) ∧
      after.store = s.store ∧
      (∀ z, e.Denotes z → ∃ n : Int32, outcome = .finished (.int n) ∧
        ∀ m : Int32, m.toInt ≡ z [ZMOD 2 ^ 32] ↔ m = n) ∧
      (outcome = .failed .divisionByZero ↔ ∃ n, e.Stuck n 0) ∧
      (outcome = .failed (.overflow "/") ↔ e.Stuck (-2147483648) (-1)) ∧
      (∀ n, outcome = .finished (.int n) ↔ e.Yields n) ∧
      ((∃ n, e.Yields n) ∨ ∃ n d, e.Stuck n d) := by
  obtain ⟨bound, computes⟩ := arithmetic.computes
  obtain ⟨result, run, value, zero, overflow, progress⟩ :=
    arithmetic.evaluates computes (.start s.store inputs s.draws)
  obtain ⟨submission, after, store, submits⟩ :=
    submit_expression clean whole computes.resolves run
  have finished (n : Int32) : Outcome.ofResult result = .finished (.int n) ↔ e.Yields n := by
    rw [← value]
    cases result <;> simp [Outcome.ofResult]
  have failed (fault : Fault) :
      Outcome.ofResult result = .failed fault ↔ result = .error fault := by
    cases result <;> simp [Outcome.ofResult]
  refine ⟨submission, .ofResult result, after, submits, store, fun z denotes => ?_,
    (failed _).trans zero, (failed _).trans overflow, finished, progress⟩
  obtain ⟨n, yields, congruent⟩ := denotes.exists_yields
  refine ⟨n, (finished n).2 yields, fun m => ?_⟩
  rw [toInt_modEq_iff, toInt_modEq_iff.1 congruent]

/-- A division that is carried out, in front of the one whose quotient is no word. -/
def wrappingSample : Syntax.Source := .ofText "-7 / 2 * (~2147483647 / (3 - 4))"

/-- The second division is the first one that cannot be carried out. -/
theorem Session.submit_arithmetic_wrappingSample :
    ∃ submission after, after.store = .empty ∧
      (start (.ofSeed 0)).submit 2 ["1"] wrappingSample =
        some (submission, ⟨.failed (.overflow "/"), [], ["1"]⟩, after) := by
  obtain ⟨submission, outcome, after, submits, store, -, -, overflow, -⟩ :=
    @submit_arithmetic (start (.ofSeed 0)) ["1"] wrappingSample _ rfl rfl
      (.binary rfl (.division rfl (.unary rfl (.literal rfl)) (.literal rfl))
        (.grouped (.division rfl (.unary rfl (.literal rfl))
          (.grouped (.binary rfl (.literal rfl) (.literal rfl))))))
  have stuck := overflow.2 <|
    .right (.division (n := -7) (d := 2) (q := -3) rfl
        (.unary (a := 7) rfl (.literal rfl) rfl) (.literal rfl)
        (isQuotient_iff.2 ⟨by decide, rfl⟩))
      (.grouped (@Syntax.Expr.Stuck.division _ _ _ (-2147483648) (-1) rfl
        (.unary (a := 2147483647) rfl (.literal rfl) rfl)
        (.grouped (.binary (a := 3) (b := 4) rfl (.literal rfl) (.literal rfl) rfl))
        (.inr ⟨rfl, rfl⟩)))
  exact ⟨submission, after, store, stuck ▸ submits 2 (Nat.le_refl 2)⟩

end Scriptlet
