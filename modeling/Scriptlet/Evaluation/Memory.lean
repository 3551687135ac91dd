import Scriptlet.Store

/-!
# What a program works on

Besides the store of variables a program sees a console, from which it takes
lines and to which it prints, and a sequence of draws from which its random
numbers come. All of it is a value, so a run is a function of it.
-/

namespace Scriptlet

/-- A sequence of draws, of which the first few are used up. -/
structure Draws where
  /-- The draw at every place of the sequence. -/
  draw : Nat → Nat
  /-- Number of draws that are used up. -/
  used : Nat

/-- Spreads a word of 64 bits over all words, one to one. -/
def scramble (x : UInt64) : UInt64 :=
  let y := (x ^^^ (x >>> 30)) * 0xBF58476D1CE4E5B9
  let z := (y ^^^ (y >>> 27)) * 0x94D049BB133111EB
  z ^^^ (z >>> 31)

/-- The sequence of a seed: the scrambled multiples of an odd constant, counted
from the seed on. -/
def Draws.ofSeed (seed : Nat) : Draws :=
  ⟨fun n => (scramble (UInt64.ofNat (seed + n) * 0x9E3779B97F4A7C15)).toNat, 0⟩

/-- The next draw below a bound, and the sequence without it. -/
def Draws.below (d : Draws) (bound : Nat) : Nat × Draws :=
  (d.draw d.used % bound, { d with used := d.used + 1 })

/-- The lines that a program reads and prints. -/
structure Console where
  /-- The lines not yet read. -/
  inputs : List String
  /-- The lines printed so far. -/
  printed : Array String
  deriving DecidableEq, Repr, Inhabited

namespace Console

/-- Prints a line. -/
def print (c : Console) (text : String) : Console := { c with printed := c.printed.push text }

/-- Reads a line; an exhausted input gives empty lines. -/
def read (c : Console) : String × Console :=
  match c.inputs with
  | [] => ("", c)
  | line :: rest => (line, { c with inputs := rest })

end Console

/-- All that a running program can see and change. -/
structure Memory where
  store : Store
  console : Console
  draws : Draws

/-- The memory of a program that is about to start. -/
def Memory.start (store : Store) (inputs : List String) (draws : Draws) : Memory :=
  ⟨store, ⟨inputs, #[]⟩, draws⟩

end Scriptlet
