import ValueGrammar.Archive.Reference
import ValueGrammar.Archive.Zstandard.Entropy

/-!
# `ValueGrammar.Archive.Zstandard.Sequences` — the copies in a block

A sequence says how many literals come next, and what is copied after them. Its three numbers are
coded with an automaton each. A distance may be one of the last three.

## Contents
- `literalSteps`, `matchSteps`: how lengths are written.
- `Tables`, `Tables.read?`: the automata of a block.
- `Sequence`, `sequences?`.
- `Offsets`, `Offsets.resolve`: the last three distances.
-/

namespace ValueGrammar.Archive.Zstandard

/-- The numbers of literals. -/
def literalSteps : List Step :=
  ladder 0 (List.replicate 16 0 ++ [1, 1, 1, 1, 2, 2, 3, 3, 4]) ++
    ladder 64 [6, 7, 8, 9, 10, 11, 12, 13, 14, 15, 16]

/-- The lengths of copies. -/
def matchSteps : List Step :=
  ladder 3 (List.replicate 32 0 ++ [1, 1, 1, 1, 2, 2, 3, 3, 4, 4, 5]) ++
    ladder 131 [7, 8, 9, 10, 11, 12, 13, 14, 15, 16]

/-- How often symbols occur, where -1 stands for a rare one. -/
def countsOf (counts : List Int) : List Count :=
  counts.map fun n => if n < 0 then .rare else .times n.toNat

/-- The automata of the blocks so far. -/
structure Tables where
  literals : Option Automaton := none
  offsets : Option Automaton := none
  lengths : Option Automaton := none
  deriving Inhabited

namespace Tables

/-- The automaton for numbers of literals that needs no description. -/
def standardLiterals : Automaton :=
  .ofCounts 6 (countsOf [4, 3, 2, 2, 2, 2, 2, 2, 2, 2, 2, 2, 2, 1, 1, 1, 2, 2, 2, 2, 2, 2, 2, 2, 2,
    3, 2, 1, 1, 1, 1, 1, -1, -1, -1, -1])

/-- The automaton for distances that needs no description. -/
def standardOffsets : Automaton :=
  .ofCounts 5 (countsOf [1, 1, 1, 1, 1, 1, 2, 2, 2, 1, 1, 1, 1, 1, 1, 1, 1, 1, 1, 1, 1, 1, 1, 1, -1,
    -1, -1, -1, -1])

/-- The automaton for lengths of copies that needs no description. -/
def standardLengths : Automaton :=
  .ofCounts 6 (countsOf ([1, 4, 3, 2, 2, 2, 2, 2, 2] ++ List.replicate 37 1 ++
    List.replicate 7 (-1)))

/-- The automaton at the start of bytes, and the bytes after it. -/
def automaton? (mode maxLog most : Nat) (standard : Automaton) (last : Option Automaton)
    (bytes : List UInt8) : Option (Automaton × List UInt8) :=
  match mode with
  | 0 => some (standard, bytes)
  | 1 =>
    match bytes with
    | b :: rest => if b.toNat ≤ most then some (.single b.toNat, rest) else none
    | [] => none
  | 2 =>
    match (Automaton.read maxLog most).run (bitsOf bytes) with
    | (.ok a, bits) => some (a, bytes.drop (bytes.length - bits.length / 8))
    | _ => none
  | _ => last.map (·, bytes)

/-- The automata of a block, and the bytes after them. -/
def read? (modes : UInt8) (last : Tables) (bytes : List UInt8) :
    Option (Automaton × Automaton × Automaton × List UInt8) := do
  let n := modes.toNat
  if n % 4 ≠ 0 then none
  let (l, bytes) ← automaton? (n / 64) 9 35 standardLiterals last.literals bytes
  let (o, bytes) ← automaton? (n / 16 % 4) 8 31 standardOffsets last.offsets bytes
  let (m, bytes) ← automaton? (n / 4 % 4) 9 52 standardLengths last.lengths bytes
  return (l, o, m, bytes)

end Tables

/-- Some literals and then a copy. A distance of at most three is one of the last ones. -/
structure Sequence where
  literals : Nat
  length : Nat
  offset : Nat
  deriving Repr, DecidableEq, Inhabited

/-- The number a symbol stands for. -/
def stepped (steps : List Step) (symbol : Nat) : BitReader Nat := do
  let s ← BitReader.ofOption steps[symbol]?
  return s.base + (← high s.extra)

/-- As many sequences as are asked for, and nothing after them. -/
def sequences (l o m : Automaton) : Nat → Nat → Nat → Nat → List Sequence →
    BitReader (List Sequence)
  | 0, _, _, _, _ => return []
  | n + 1, ls, os, ms, read => do
    let code := (o.cell os).symbol
    let offset := Nat.pow 2 code + (← high code)
    let length ← stepped matchSteps (m.cell ms).symbol
    let literals ← stepped literalSteps (l.cell ls).symbol
    let read := ⟨literals, length, offset⟩ :: read
    if n = 0 then
      finished
      return read.reverse
    else
      let ls ← l.next ls
      let ms ← m.next ms
      let os ← o.next os
      sequences l o m n ls os ms read

/-- The number of sequences at the start of bytes, and the bytes after it. -/
def sequenceCount? : List UInt8 → Option (Nat × List UInt8)
  | [] => none
  | a :: rest =>
    if a < 128 then some (a.toNat, rest)
    else if a < 255 then
      match rest with
      | b :: rest => some ((a.toNat - 128) * 256 + b.toNat, rest)
      | _ => none
    else
      match rest with
      | b :: c :: rest => some (b.toNat + c.toNat * 256 + 0x7f00, rest)
      | _ => none

/-- The sequences of a block, and the automata for the blocks after it. -/
def sequences? (last : Tables) (bytes : List UInt8) : Option (List Sequence × Tables) := do
  let (count, rest) ← sequenceCount? bytes
  if count = 0 then (if rest.isEmpty then some ([], last) else none)
  else
    match rest with
    | [] => none
    | modes :: rest =>
      let (l, o, m, rest) ← Tables.read? modes last rest
      let read : BitReader (List Sequence) := do
        let ls ← l.start
        let os ← o.start
        let ms ← m.start
        sequences l o m count ls os ms []
      match read.run (← backward? rest) with
      | (.ok out, _) => some (out, ⟨some l, some o, some m⟩)
      | _ => none

/-- The last three distances, the latest first. -/
structure Offsets where
  first : Nat := 1
  second : Nat := 4
  third : Nat := 8
  deriving Repr, DecidableEq, Inhabited

namespace Offsets

/-- The distance that a sequence means, and the last three after it. Without literals the latest
distance is not meant, but one less than it may be, if there is such a one. -/
def resolve (o : Offsets) (s : Sequence) : Nat × Offsets :=
  let latest (n : Nat) : Nat × Offsets := (n, ⟨n, o.first, o.second⟩)
  if 3 < s.offset then latest (s.offset - 3)
  else
    match s.offset + (if s.literals = 0 then 1 else 0) with
    | 1 => (o.first, o)
    | 2 => (o.second, ⟨o.second, o.first, o.third⟩)
    | 3 => latest o.third
    | _ => latest (max (o.first - 1) 1)

end Offsets

end ValueGrammar.Archive.Zstandard
