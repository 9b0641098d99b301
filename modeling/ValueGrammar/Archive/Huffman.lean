import ValueGrammar.Archive.Bits

/-!
# `ValueGrammar.Archive.Huffman` — codes of varying length

A code is a binary tree with symbols at its leaves. It is given by the lengths of the codes of its
symbols: shorter codes come first, and those of one length in the order of their symbols.

## Contents
- `Huffman`, `Huffman.decode`.
- `Huffman.ofLengths?`.
-/

namespace ValueGrammar.Archive

/-- A tree of codes: a zero goes to the first branch, a one to the second. -/
inductive Huffman where
  | unused
  | symbol (value : Nat)
  | branch (zero one : Huffman)
  deriving Repr, Inhabited

namespace Huffman

/-- The symbol whose code comes next. -/
def decode : Huffman → BitReader Nat
  | .unused => BitReader.corrupt
  | .symbol v => return v
  | .branch zero one => do if ← BitReader.bit then one.decode else zero.decode

/-- The tree with one more code. -/
def insert (value : Nat) : List Bool → Huffman → Huffman
  | [], _ => .symbol value
  | b :: path, .branch zero one =>
    if b then .branch zero (insert value path one) else .branch (insert value path zero) one
  | b :: path, _ =>
    if b then .branch .unused (insert value path .unused)
    else .branch (insert value path .unused) .unused

/-- No code is longer than this. -/
def maxLength : Nat := 15

/-- The bits of a number, the highest of `n` first. -/
def path (n code : Nat) : List Bool := ((List.range n).map code.testBit).reverse

/-- Assigns codes to symbols that are sorted by length, from a place on in the space of all codes
of the greatest length. -/
def assign : Nat → List (Nat × Nat) → Huffman → Huffman
  | _, [], tree => tree
  | start, (length, value) :: rest, tree =>
    let width := Nat.pow 2 (maxLength - length)
    assign (start + width) rest (insert value (path length (start / width)) tree)

/-- The part of the space of all codes that codes of the lengths take. -/
def space (used : List (Nat × Nat)) : Nat :=
  used.foldl (fun n e => n + Nat.pow 2 (maxLength - e.1)) 0

/-- The code whose symbols have the given lengths; a symbol without a code has length zero. The
codes fill the space, or there is a single one of length one, or none at all. -/
def ofLengths? (lengths : List Nat) : Option Huffman :=
  let used := lengths.zipIdx.filter fun e => e.1 != 0
  let full := space used == Nat.pow 2 maxLength
  let lone := used.isEmpty || used.map Prod.fst == [1]
  if full || lone then
    some (assign 0 (used.mergeSort fun a b => a.1 ≤ b.1) .unused)
  else none

end Huffman

end ValueGrammar.Archive
