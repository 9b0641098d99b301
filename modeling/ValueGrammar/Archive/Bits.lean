/-!
# `ValueGrammar.Archive.Bits` — bytes, bits and numbers

Compressed data is read bit by bit, the lowest bit of a byte first.

## Contents
- `number`, `bitsOf`: numbers of bytes and of bits, the lowest first.
- `Content`: what an archive holds, as far as it can be read.
- `BitFault`, `BitReader`, `BitReader.bit`, `BitReader.number`, `BitReader.align`.
-/

namespace ValueGrammar.Archive

/-- The number that bytes make, the lowest first. -/
def number : List UInt8 → Nat
  | [] => 0
  | b :: bs => b.toNat + 256 * number bs

/-- The bits of bytes, the lowest of each byte first. -/
def bitsOf (bytes : List UInt8) : List Bool :=
  bytes.flatMap fun b => (List.range 8).map b.toNat.testBit

/-- The number that bits make, the lowest first. -/
def ofBits : List Bool → Nat
  | [] => 0
  | b :: bs => b.toNat + 2 * ofBits bs

/-- Splits off `n` elements, if there are so many. -/
def split? {α : Type} (n : Nat) (xs : List α) : Option (List α × List α) :=
  let front := xs.take n
  if front.length = n then some (front, xs.drop n) else none

/-- What an archive holds: its bytes in the pieces they are read in, and what is wrong with the end
of the last piece, if anything is. -/
structure Content where
  pieces : List (List UInt8)
  failure : Option String
  deriving Repr, DecidableEq, Inhabited

/-- Why bits cannot be read. -/
inductive BitFault where
  /-- there are too few of them -/
  | cut
  /-- they mean nothing -/
  | corrupt
  deriving Repr, DecidableEq, Inhabited

/-- A function of the bits left that fails where they do not fit; what is left then is known too. -/
abbrev BitReader : Type → Type := ExceptT BitFault (StateM (List Bool))

namespace BitReader

/-- The bits mean nothing. -/
def corrupt {α : Type} : BitReader α := throw .corrupt

/-- What a value is, if there is one. -/
def ofOption {α : Type} : Option α → BitReader α
  | some a => pure a
  | none => corrupt

/-- The next bit. -/
def bit : BitReader Bool := do
  match ← get with
  | [] => throw .cut
  | b :: bs =>
    set bs
    return b

/-- The next `n` bits, or all that are left. -/
def bits (n : Nat) : BitReader (List Bool) := do
  let bs ← get
  set (bs.drop n)
  return bs.take n

/-- The number that the next `n` bits make. -/
def number (n : Nat) : BitReader Nat := do
  let bs ← bits n
  if bs.length < n then throw .cut
  return ofBits bs

/-- Goes on to the next whole byte, if the data ends with one. -/
def align : BitReader Unit := modify fun bs => bs.drop (bs.length % 8)

end BitReader

end ValueGrammar.Archive
