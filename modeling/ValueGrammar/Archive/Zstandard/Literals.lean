import ValueGrammar.Archive.Zstandard.Entropy

/-!
# `ValueGrammar.Archive.Zstandard.Literals` — the bytes of a block that are no copies

They stand there as they are, or as one byte and how often it is there, or in one or four streams
of codes of varying length. The code is given in front of them, or it is that of the block before.

## Contents
- `LiteralsHeader`, `LiteralsHeader.read?`.
- `literals?`.
-/

namespace ValueGrammar.Archive.Zstandard

/-- How the literals of a block are written. -/
structure LiteralsHeader where
  kind : Nat
  /-- how many there are -/
  size : Nat
  /-- how many bytes they take, if they are coded -/
  coded : Nat := 0
  streams : Nat := 1
  deriving Repr, DecidableEq, Inhabited

namespace LiteralsHeader

/-- The header at the start of bytes, and the bytes after it. -/
def read? (bytes : List UInt8) : Option (LiteralsHeader × List UInt8) := do
  let head ← bytes.head?
  let kind := head.toNat % 4
  let format := head.toNat / 4 % 4
  let plain (width shift : Nat) : Option (LiteralsHeader × List UInt8) := do
    let (front, rest) ← split? width bytes
    return ({ kind, size := number front / shift }, rest)
  let coded (width bits streams : Nat) : Option (LiteralsHeader × List UInt8) := do
    let (front, rest) ← split? width bytes
    let n := number front / 16
    let limit := Nat.pow 2 bits
    return ({ kind, size := n % limit, coded := n / limit % limit, streams }, rest)
  if kind < 2 then
    match format with
    | 1 => plain 2 16
    | 3 => plain 3 16
    | _ => plain 1 8
  else
    match format with
    | 0 => coded 3 10 1
    | 1 => coded 3 10 4
    | 2 => coded 4 14 4
    | _ => coded 5 18 4

end LiteralsHeader

/-- The bytes that a stream of codes stands for. -/
def stream? (code : Huffman) (count : Nat) (bytes : List UInt8) : Option (List UInt8) := do
  match (codedWith code count []).run (← backward? bytes) with
  | (.ok out, _) => some out
  | _ => none

/-- The bytes that four streams stand for; the sizes of the first three come first. -/
def fourStreams? (code : Huffman) (count : Nat) (bytes : List UInt8) : Option (List UInt8) := do
  let (sizes, rest) ← split? 6 bytes
  let each := (count + 3) / 4
  let (a, rest) ← split? (number (sizes.take 2)) rest
  let (b, rest) ← split? (number ((sizes.drop 2).take 2)) rest
  let (c, d) ← split? (number (sizes.drop 4)) rest
  if count < 3 * each then none
  return (← stream? code each a) ++ (← stream? code each b) ++ (← stream? code each c) ++
    (← stream? code (count - 3 * each) d)

/-- The literals at the start of a block, the code for the blocks after it, and the bytes after
them. There are at most `limit`. -/
def literals? (limit : Nat) (last : Option Huffman) (bytes : List UInt8) :
    Option (List UInt8 × Option Huffman × List UInt8) := do
  let (h, rest) ← LiteralsHeader.read? bytes
  if limit < h.size then none
  match h.kind with
  | 0 =>
    let (front, rest) ← split? h.size rest
    return (front, last, rest)
  | 1 =>
    let (b, rest) ← split? 1 rest
    return (List.replicate h.size (b.headD 0), last, rest)
  | kind =>
    let (front, rest) ← split? h.coded rest
    let (code, front) ←
      if kind = 2 then do
        let (ws, front) ← weights? front
        pure (← huffman? ws, front)
      else pure (← last, front)
    let out ← if h.streams = 1 then stream? code h.size front else fourStreams? code h.size front
    return (out, some code, rest)

end ValueGrammar.Archive.Zstandard
