/-!
# Escapes in string literals

Between the quotes of a literal a backslash and the character behind it stand
for one character, and `\x` with one or two hexadecimal digits for the
character of that code. A backslash that starts no escape stands for itself.
-/

namespace Scriptlet.Escape

/-- The character that a backslash with this character behind it stands for. -/
def ofLetter? : Char → Option Char
  | 'n' => some '\n'
  | 't' => some '\t'
  | 'r' => some '\r'
  | '\\' => some '\\'
  | '"' => some '"'
  | '0' => some '\x00'
  | _ => none

/-- The number that a hexadecimal digit stands for. -/
def hexDigit? (c : Char) : Option Nat :=
  if '0' ≤ c ∧ c ≤ '9' then some (c.toNat - '0'.toNat)
  else if 'a' ≤ c ∧ c ≤ 'f' then some (c.toNat - 'a'.toNat + 10)
  else if 'A' ≤ c ∧ c ≤ 'F' then some (c.toNat - 'A'.toNat + 10)
  else none

/-- The character that a backslash stands for by what is behind it, and how many
of the characters behind it belong to the escape. -/
def read? : List Char → Option (Char × Nat)
  | [] => none
  | c :: cs =>
    if c = 'x' then
      match (cs.take 2).map hexDigit? with
      | [some high, some low] => some (Char.ofNat (16 * high + low), 3)
      | some digit :: _ => some (Char.ofNat digit, 2)
      | _ => none
    else (ofLetter? c).map fun e => (e, 1)

/-- Decodes a text whose first `skip` characters belong to an escape that is
already read. -/
def decodeFrom : (skip : Nat) → List Char → List Char
  | _, [] => []
  | skip + 1, _ :: cs => decodeFrom skip cs
  | 0, c :: cs =>
    if c = '\\' then
      match read? cs with
      | some (e, n) => e :: decodeFrom n cs
      | none => c :: decodeFrom 0 cs
    else c :: decodeFrom 0 cs

/-- The text that the inside of a literal denotes. -/
def decode (cs : List Char) : List Char := decodeFrom 0 cs

/-- Skipped characters denote nothing. -/
theorem decodeFrom_skip (n : Nat) (cs : List Char) : decodeFrom n cs = decode (cs.drop n) := by
  induction cs generalizing n with
  | nil => cases n <;> simp [decodeFrom, decode]
  | cons c cs ih =>
    cases n with
    | zero => rfl
    | succ n => simp [decodeFrom, ih]

/-- A character other than a backslash denotes itself. -/
theorem decode_cons {c : Char} (h : c ≠ '\\') (cs : List Char) :
    decode (c :: cs) = c :: decode cs := by
  simp [decode, decodeFrom, h]

end Scriptlet.Escape
