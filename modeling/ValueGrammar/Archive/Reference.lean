import ValueGrammar.Archive.Bits

/-!
# `ValueGrammar.Archive.Reference` — copies of what came before

Compressed data refers to bytes that it holds already, by their distance and their number. Such
numbers are written as a symbol, which gives a base, and some bits more.

## Contents
- `Step`, `ladder`: what symbols stand for.
- `copy`: carries out a reference.
-/

namespace ValueGrammar.Archive

/-- A number written as a base and some bits more. -/
structure Step where
  base : Nat
  extra : Nat
  deriving Repr, DecidableEq, Inhabited

/-- Bases that grow by what the bits before them can hold. -/
def ladder : Nat → List Nat → List Step
  | _, [] => []
  | base, extra :: rest => ⟨base, extra⟩ :: ladder (base + Nat.pow 2 extra) rest

/-- Appends `n` bytes, each equal to the one `distance` before it. -/
def copy (distance : Nat) : Nat → Array UInt8 → Array UInt8
  | 0, out => out
  | n + 1, out => copy distance n (out.push (out.getD (out.size - distance) 0))

end ValueGrammar.Archive
