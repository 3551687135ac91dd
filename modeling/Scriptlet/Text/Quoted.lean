import Scriptlet.Text.Extending
import Scriptlet.Text.Unprintable

/-!
# Quoted text

A text is shown unambiguously between double quotes: seven characters have an
escape of their own, every other character that cannot be seen on its own is
written by its code point, and all else stands for itself.
-/

namespace Scriptlet.Text

/-- The written form of one character between quotes. -/
def escaped (c : Char) : List Char :=
  if c = '\x00' then ['\\', '0']
  else if c = '\t' then ['\\', 't']
  else if c = '\n' then ['\\', 'n']
  else if c = '\r' then ['\\', 'r']
  else if c = '"' then ['\\', '"']
  else if c = '\\' then ['\\', '\\']
  else if isUnprintable c || isExtending c then
    ['\\', 'u', '\x7b'] ++ Nat.toDigits 16 c.toNat ++ ['\x7d']
  else [c]

/-- A text between double quotes. -/
def quoted (text : String) : String :=
  String.ofList ('"' :: text.toList.flatMap escaped ++ ['"'])

end Scriptlet.Text
