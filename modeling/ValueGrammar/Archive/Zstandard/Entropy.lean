import ValueGrammar.Archive.Huffman

/-!
# `ValueGrammar.Archive.Zstandard.Entropy` — codes that are read backwards

Symbols are coded with the states of a finite automaton, or with codes of varying length. Both are
written so that the last bit is read first; the highest bit that is set marks where reading starts.

## Contents
- `backward?`, `high`: bits from the end, and numbers whose highest bit comes first.
- `Automaton`, `Automaton.ofCounts`, `Automaton.readCounts`: states and how they are described.
- `weights`, `huffman?`: codes of varying length, given by the weights of their symbols.
-/

namespace ValueGrammar.Archive.Zstandard

/-- The bits of bytes from the end, after the mark. -/
def backward? (bytes : List UInt8) : Option (List Bool) :=
  match bytes.reverse with
  | [] => none
  | last :: rest =>
    if last = 0 then none
    else
      let bits := (bitsOf (last :: rest).reverse).reverse
      some (bits.dropWhile (!·)).tail

/-- The number that the next `n` bits make, the highest first. -/
def high (n : Nat) : BitReader Nat := do
  let bs ← BitReader.bits n
  if bs.length < n then throw .cut
  return ofBits bs.reverse

/-- All bits have been read. -/
def finished : BitReader Unit := do
  if !(← get).isEmpty then BitReader.corrupt

/-! ## Automata -/

/-- What a state stands for, and how to get to the next one: some bits are added to a base. -/
structure Cell where
  symbol : Nat
  bits : Nat := 0
  base : Nat := 0
  deriving Repr, DecidableEq, Inhabited

/-- An automaton with two to the power of `log` states. -/
structure Automaton where
  log : Nat
  cells : Array Cell
  deriving Repr, DecidableEq, Inhabited

/-- How often a symbol occurs among the states; a rare one occurs once, in a state of its own. -/
inductive Count where
  | rare
  | times (n : Nat)
  deriving Repr, DecidableEq, Inhabited

/-- How many states a symbol has. -/
def Count.states : Count → Nat
  | .rare => 1
  | .times n => n

namespace Automaton

/-- An automaton that always stands for one symbol. -/
def single (symbol : Nat) : Automaton := ⟨0, #[⟨symbol, 0, 0⟩]⟩

/-- The places of the states of symbols that are not rare: they are far apart from each other, and
none is beyond `limit`. -/
def places (size limit : Nat) : Nat → Nat → List Nat → List (Nat × Nat)
  | _, _, [] => []
  | 0, _, _ => []
  | fuel + 1, place, symbol :: symbols =>
    let next := (place + size / 2 + size / 8 + 3) % size
    if place < limit then (place, symbol) :: places size limit fuel next symbols
    else places size limit fuel next (symbol :: symbols)

/-- The symbols of the states. -/
def symbols (log : Nat) (counts : List Count) : Array Nat :=
  let size := Nat.pow 2 log
  let rare := (counts.zipIdx.filter fun c => c.1 = .rare).map Prod.snd
  let common := counts.zipIdx.flatMap fun
    | (.rare, _) => []
    | (.times n, symbol) => List.replicate n symbol
  let limit := size - rare.length
  let spread := places size limit (2 * size) 0 common
  let table := spread.foldl (fun a e => a.setIfInBounds e.1 e.2) (Array.replicate size 0)
  rare.zipIdx.foldl (fun a e => a.setIfInBounds (size - 1 - e.2) e.1) table

/-- Numbers the states of each symbol from its count on; they tell which states come next. -/
def link (log : Nat) : List Nat → Array Nat → List Cell
  | [], _ => []
  | symbol :: rest, next =>
    let n := next.getD symbol 1
    let bits := log - n.log2
    ⟨symbol, bits, n * Nat.pow 2 bits - Nat.pow 2 log⟩ :: link log rest (next.modify symbol (· + 1))

/-- The automaton with the given counts. -/
def ofCounts (log : Nat) (counts : List Count) : Automaton :=
  let next := (counts.map Count.states).toArray
  ⟨log, (link log (symbols log counts).toList next).toArray⟩

/-- How many symbols without a state follow one. -/
def zeros : Nat → BitReader Nat
  | 0 => BitReader.corrupt
  | fuel + 1 => do
    let n ← BitReader.number 2
    if n = 3 then return 3 + (← zeros fuel) else return n

/-- A number up to `most`, which takes one bit less if it is small. -/
def upTo (most : Nat) : BitReader Nat := do
  let bits := most.log2
  let spare := Nat.pow 2 (bits + 1) - 1 - most
  let low ← BitReader.number bits
  if low < spare then return low
  else
    let value := low + Nat.pow 2 bits * (← BitReader.number 1)
    return if Nat.pow 2 bits ≤ value then value - spare else value

/-- Reads counts until all of the states left are given away; the last count comes first. -/
def readCounts (most : Nat) : Nat → Nat → List Count → BitReader (List Count)
  | 0, _, _ => BitReader.corrupt
  | fuel + 1, left, counts => do
    if left = 0 then return counts.reverse
    if most < counts.length then BitReader.corrupt
    match ← upTo (left + 1) with
    | 0 => readCounts most fuel (left - 1) (.rare :: counts)
    | 1 =>
      let n ← zeros (← get).length
      readCounts most fuel left (List.replicate (n + 1) (.times 0) ++ counts)
    | n + 2 => readCounts most fuel (left - (n + 1)) (.times (n + 1) :: counts)

/-- Reads the description of an automaton whose symbols are at most `most`. -/
def read (maxLog most : Nat) : BitReader Automaton := do
  let log := 5 + (← BitReader.number 4)
  if maxLog < log then BitReader.corrupt
  let size := Nat.pow 2 log
  let counts ← readCounts most (size + most + 2) size []
  if most + 1 < counts.length then BitReader.corrupt
  BitReader.align
  return ofCounts log counts

/-- What a state stands for. -/
def cell (a : Automaton) (state : Nat) : Cell := a.cells.getD state default

/-- The first state. -/
def start (a : Automaton) : BitReader Nat := high a.log

/-- The state after one. -/
def next (a : Automaton) (state : Nat) : BitReader Nat := do
  let c := a.cell state
  return c.base + (← high c.bits)

end Automaton

/-! ## Codes of varying length -/

/-- Symbols of two states in turn, until the bits do not suffice. -/
def alternating (a : Automaton) : Nat → Nat → Nat → List Nat → BitReader (List Nat)
  | 0, _, _, _ => BitReader.corrupt
  | fuel + 1, now, other, read => do
    let read := (a.cell now).symbol :: read
    if (← get).length < (a.cell now).bits then return ((a.cell other).symbol :: read).reverse
    else alternating a fuel other (← a.next now) read

/-- The symbols that bytes of two automata stand for. -/
def coded (bytes : List UInt8) : BitReader (List Nat) := do
  set (bitsOf bytes)
  let a ← Automaton.read 15 255
  let rest := bytes.drop (bytes.length - (← get).length / 8)
  set (← BitReader.ofOption (backward? rest))
  let now ← a.start
  let other ← a.start
  alternating a 256 now other []

/-- The two halves of a byte, the upper first. -/
def halves (b : UInt8) : List Nat := [b.toNat / 16, b.toNat % 16]

/-- The weights of symbols at the start of bytes, without the last one, and the bytes after them. -/
def weights? : List UInt8 → Option (List Nat × List UInt8)
  | [] => none
  | head :: bytes =>
    let n := head.toNat
    if n < 128 then
      match split? n bytes with
      | none => none
      | some (front, rest) =>
        match (coded front).run [] with
        | (.ok ws, _) => if ws.length ≤ 255 then some (ws, rest) else none
        | _ => none
    else
      let count := n - 127
      (split? ((count + 1) / 2) bytes).map fun r => ((r.1.flatMap halves).take count, r.2)

/-- No code is longer than this. -/
def maxCodeLength : Nat := 11

/-- How much of all codes a symbol of a weight takes. -/
def share (weight : Nat) : Nat := if weight = 0 then 0 else Nat.pow 2 (weight - 1)

/-- The code whose symbols have the given weights; that of the last symbol fills what is left. -/
def huffman? (weights : List Nat) : Option Huffman :=
  let total := weights.foldl (fun n w => n + share w) 0
  let length := total.log2 + 1
  let left := Nat.pow 2 length - total
  let weights := weights ++ [left.log2 + 1]
  let ones := weights.count 1
  if total = 0 || maxCodeLength < length || weights.any (maxCodeLength < ·) ||
      left ≠ Nat.pow 2 left.log2 || ones < 2 || ones % 2 = 1 then none
  else
    let used := (weights.zipIdx.filter fun e => e.1 ≠ 0).mergeSort fun a b => a.1 ≤ b.1
    let add (acc : Huffman × Nat) (e : Nat × Nat) : Huffman × Nat :=
      let width := share e.1
      (acc.1.insert e.2 (Huffman.path (length + 1 - e.1) (acc.2 / width)), acc.2 + width)
    some (used.foldl add (.unused, 0)).1

/-- Symbols of a code, as many as are asked for, and nothing after them. -/
def codedWith (code : Huffman) : Nat → List UInt8 → BitReader (List UInt8)
  | 0, read => do
    finished
    return read.reverse
  | n + 1, read => do codedWith code n (UInt8.ofNat (← code.decode) :: read)

end ValueGrammar.Archive.Zstandard
