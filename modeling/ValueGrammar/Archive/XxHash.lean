import ValueGrammar.Archive.Bits

/-!
# `ValueGrammar.Archive.XxHash` — a checksum of 64 bits

Thirty-two bytes at a time go through four lanes, which are then mixed into one; the bytes left are
mixed in at the end.

## Contents
- `XxHash.round`, `XxHash.lanes`, `XxHash.finish`.
- `xxHash64`.
-/

namespace ValueGrammar.Archive

namespace XxHash

/-- The numbers that everything is multiplied by. -/
def prime1 : UInt64 := 0x9e3779b185ebca87
@[inherit_doc prime1] def prime2 : UInt64 := 0xc2b2ae3d27d4eb4f
@[inherit_doc prime1] def prime3 : UInt64 := 0x165667b19e3779f9
@[inherit_doc prime1] def prime4 : UInt64 := 0x85ebca77c2b2ae63
@[inherit_doc prime1] def prime5 : UInt64 := 0x27d4eb2f165667c5

/-- Turns the bits of a word to the left. -/
def rotate (w : UInt64) (n : UInt64) : UInt64 := (w <<< n) ||| (w >>> (64 - n))

/-- The word that the first eight bytes make. -/
def word (bytes : List UInt8) : UInt64 := UInt64.ofNat (number (bytes.take 8))

/-- A lane after one more word. -/
def round (lane input : UInt64) : UInt64 := rotate (lane + input * prime2) 31 * prime1

/-- Mixes a lane into a sum. -/
def mix (sum lane : UInt64) : UInt64 := (sum ^^^ round 0 lane) * prime1 + prime4

/-- The four lanes. -/
structure Lanes where
  a : UInt64
  b : UInt64
  c : UInt64
  d : UInt64
  deriving Repr, DecidableEq, Inhabited

namespace Lanes

/-- The lanes before anything goes through them. -/
def start : Lanes := ⟨prime1 + prime2, prime2, 0, 0 - prime1⟩

/-- The lanes after thirty-two bytes. -/
def step (l : Lanes) (bytes : List UInt8) : Lanes :=
  ⟨round l.a (word bytes), round l.b (word (bytes.drop 8)), round l.c (word (bytes.drop 16)),
    round l.d (word (bytes.drop 24))⟩

/-- All lanes in one. -/
def sum (l : Lanes) : UInt64 :=
  let s := rotate l.a 1 + rotate l.b 7 + rotate l.c 12 + rotate l.d 18
  mix (mix (mix (mix s l.a) l.b) l.c) l.d

end Lanes

/-- The lanes after all stripes of thirty-two bytes, and the bytes left. -/
def stripes : Nat → Lanes → List UInt8 → Lanes × List UInt8
  | 0, l, bytes => (l, bytes)
  | n + 1, l, bytes => stripes n (l.step bytes) (bytes.drop 32)

/-- Mixes in the words left. -/
def words : Nat → UInt64 → List UInt8 → UInt64 × List UInt8
  | 0, h, bytes => (h, bytes)
  | n + 1, h, bytes =>
    words n (rotate (h ^^^ round 0 (word bytes)) 27 * prime1 + prime4) (bytes.drop 8)

/-- Mixes in a half word, if one is left. -/
def half (h : UInt64) (bytes : List UInt8) : UInt64 × List UInt8 :=
  if bytes.length < 4 then (h, bytes)
  else
    let w := UInt64.ofNat (number (bytes.take 4))
    (rotate (h ^^^ (w * prime1)) 23 * prime2 + prime3, bytes.drop 4)

/-- Mixes in a byte. -/
def byte (h : UInt64) (b : UInt8) : UInt64 := rotate (h ^^^ (b.toUInt64 * prime5)) 11 * prime1

/-- Spreads every bit over the whole word. -/
def finish (h : UInt64) : UInt64 :=
  let h := (h ^^^ (h >>> 33)) * prime2
  let h := (h ^^^ (h >>> 29)) * prime3
  h ^^^ (h >>> 32)

end XxHash

open XxHash in
/-- The checksum of bytes. -/
def xxHash64 (bytes : List UInt8) : UInt64 :=
  let size := bytes.length
  let (lanes, rest) := stripes (size / 32) .start bytes
  let h := (if size < 32 then prime5 else lanes.sum) + UInt64.ofNat size
  let (h, rest) := words (rest.length / 8) h rest
  let (h, rest) := half h rest
  finish (rest.foldl byte h)

end ValueGrammar.Archive
