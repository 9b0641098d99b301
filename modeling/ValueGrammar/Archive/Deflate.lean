import ValueGrammar.Archive.Huffman
import ValueGrammar.Archive.Reference

/-!
# `ValueGrammar.Archive.Deflate` — the deflate format

Data is a list of blocks. A block is stored as it is, or it is a list of bytes and of references to
what came before, written with two codes: the fixed ones, or ones given at its start.

## Contents
- `Deflate.lengths`, `Deflate.distances`: how references are written.
- `Deflate.codes`: the two codes of a block.
- `Deflate.Inflated`, `Deflate.inflate`: the data as far as it can be read, and the bits after it.
-/

namespace ValueGrammar.Archive.Deflate

/-- The lengths of references; the greatest has a symbol of its own. -/
def lengths : List Step :=
  ladder 3 [0, 0, 0, 0, 0, 0, 0, 0, 1, 1, 1, 1, 2, 2, 2, 2, 3, 3, 3, 3, 4, 4, 4, 4, 5, 5, 5, 5] ++
    [⟨258, 0⟩]

/-- The distances of references. -/
def distances : List Step :=
  ladder 1 [0, 0, 0, 0, 1, 1, 2, 2, 3, 3, 4, 4, 5, 5, 6, 6, 7, 7, 8, 8, 9, 9, 10, 10, 11, 11, 12,
    12, 13, 13]

/-- The number a symbol stands for. -/
def stepped (steps : List Step) (symbol : Nat) : BitReader Nat := do
  let s ← BitReader.ofOption steps[symbol]?
  return s.base + (← BitReader.number s.extra)

/-- The codes of a block. -/
structure Codes where
  literals : Huffman
  distances : Huffman

namespace Codes

/-- The codes for given lengths. -/
def ofLengths? (literals distances : List Nat) : Option Codes := do
  return ⟨← Huffman.ofLengths? literals, ← Huffman.ofLengths? distances⟩

/-- The lengths of the fixed codes. -/
def fixed? : Option Codes :=
  ofLengths?
    (List.replicate 144 8 ++ List.replicate 112 9 ++ List.replicate 24 7 ++ List.replicate 8 8)
    (List.replicate 32 5)

end Codes

/-- The order in which the lengths of the code for lengths are written. -/
def order : List Nat := [16, 17, 18, 0, 8, 7, 9, 6, 10, 5, 11, 4, 12, 3, 13, 2, 14, 1, 15]

/-- Reads code lengths until there are `wanted`, given those so far, the last first. -/
def codeLengths (code : Huffman) (wanted : Nat) : Nat → List Nat → BitReader (List Nat)
  | 0, _ => BitReader.corrupt
  | fuel + 1, acc => do
    if acc.length = wanted then return acc.reverse
    else if wanted < acc.length then BitReader.corrupt
    else
      let repeated (n value : Nat) : BitReader (List Nat) :=
        codeLengths code wanted fuel (List.replicate n value ++ acc)
      match ← code.decode with
      | 16 =>
        match acc with
        | [] => BitReader.corrupt
        | last :: _ => repeated (3 + (← BitReader.number 2)) last
      | 17 => repeated (3 + (← BitReader.number 3)) 0
      | 18 => repeated (11 + (← BitReader.number 7)) 0
      | n => repeated 1 n

/-- Reads the codes of a block that brings its own. -/
def ownCodes : BitReader Codes := do
  let literals := 257 + (← BitReader.number 5)
  let distances := 1 + (← BitReader.number 5)
  let given := 4 + (← BitReader.number 4)
  if 286 < literals || 30 < distances then BitReader.corrupt
  let short ← (List.range given).mapM fun _ => BitReader.number 3
  let table := order.zip short
  let lengthOf (symbol : Nat) : Nat := (table.lookup symbol).getD 0
  let code ← BitReader.ofOption (Huffman.ofLengths? ((List.range 19).map lengthOf))
  let all ← codeLengths code (literals + distances) (literals + distances + 1) []
  BitReader.ofOption (Codes.ofLengths? (all.take literals) (all.drop literals))

/-- What a block of symbols consists of. -/
inductive Part where
  | byte (value : Nat)
  | reference (length distance : Nat)
  | blockEnd
  deriving Repr, DecidableEq, Inhabited

/-- Reads a part of a block. -/
def part (codes : Codes) : BitReader Part := do
  let symbol ← codes.literals.decode
  if symbol < 256 then return .byte symbol
  else if symbol = 256 then return .blockEnd
  else
    let length ← stepped lengths (symbol - 257)
    let distance ← stepped distances (← codes.distances.decode)
    return .reference length distance

/-- The data so far, the bits left, and why there is no more, if that is not the end. -/
structure Inflated where
  out : Array UInt8
  bits : List Bool
  fault : Option BitFault := none

/-- Reads bytes and references up to the end of a block. -/
def symbols (codes : Codes) : Nat → Array UInt8 → List Bool → Inflated
  | 0, out, bits => ⟨out, bits, some .corrupt⟩
  | fuel + 1, out, bits =>
    match (part codes).run bits with
    | (.ok (.byte b), bits) => symbols codes fuel (out.push b.toUInt8) bits
    | (.ok (.reference length distance), bits) =>
      if out.size < distance then ⟨out, bits, some .corrupt⟩
      else symbols codes fuel (copy distance length out) bits
    | (.ok .blockEnd, bits) => ⟨out, bits, none⟩
    | (.error e, bits) => ⟨out, bits, some e⟩

/-- The length of a stored block. -/
def storedLength : BitReader Nat := do
  BitReader.align
  let length ← BitReader.number 16
  let complement ← BitReader.number 16
  if length + complement ≠ 0xffff then BitReader.corrupt
  return length

/-- Bytes of bits. -/
def bytesOf : Nat → List Bool → List UInt8
  | 0, _ => []
  | n + 1, bits => UInt8.ofNat (ofBits (bits.take 8)) :: bytesOf n (bits.drop 8)

/-- Reads a stored block, or what there is of it. -/
def stored (out : Array UInt8) (bits : List Bool) : Inflated :=
  match storedLength.run bits with
  | (.error e, bits) => ⟨out, bits, some e⟩
  | (.ok length, bits) =>
    let available := min length (bits.length / 8)
    let out := (bytesOf available bits).foldl Array.push out
    ⟨out, bits.drop (8 * available), if available < length then some .cut else none⟩

/-- Reads a block of symbols. -/
def coded (codes : BitReader Codes) (out : Array UInt8) (bits : List Bool) : Inflated :=
  match codes.run bits with
  | (.error e, bits) => ⟨out, bits, some e⟩
  | (.ok codes, bits) => symbols codes (bits.length + 1) out bits

/-- Is a block the last one, and of which type is it? -/
def blockHeader : BitReader (Bool × Nat) := do return (← BitReader.bit, ← BitReader.number 2)

/-- Reads a block of the given type. -/
def block (type : Nat) (out : Array UInt8) (bits : List Bool) : Inflated :=
  match type with
  | 0 => stored out bits
  | 1 => coded (BitReader.ofOption Codes.fixed?) out bits
  | 2 => coded ownCodes out bits
  | _ => ⟨out, bits, some .corrupt⟩

/-- Reads blocks up to the last one. -/
def blocks : Nat → Array UInt8 → List Bool → Inflated
  | 0, out, bits => ⟨out, bits, some .corrupt⟩
  | fuel + 1, out, bits =>
    match blockHeader.run bits with
    | (.error e, bits) => ⟨out, bits, some e⟩
    | (.ok (last, type), bits) =>
      let r := block type out bits
      if last || r.fault.isSome then r else blocks fuel r.out r.bits

/-- The data at the start of bytes. -/
def inflate (bytes : List UInt8) : Inflated :=
  let bits := bitsOf bytes
  blocks (bits.length + 1) #[] bits

namespace Inflated

/-- How many whole bytes are left. -/
def left (r : Inflated) : Nat := r.bits.length / 8

/-- What is wrong with data of so many bytes, for people. -/
def failure (size : Nat) (r : Inflated) : Option String :=
  r.fault.map fun
    | .cut => "unexpected EOF"
    | .corrupt => "flate: corrupt input before offset " ++ toString (size - r.left)

end Inflated

end ValueGrammar.Archive.Deflate
