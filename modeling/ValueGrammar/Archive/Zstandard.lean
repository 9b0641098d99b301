import ValueGrammar.Archive.XxHash
import ValueGrammar.Archive.Zstandard.Literals
import ValueGrammar.Archive.Zstandard.Sequences

/-!
# `ValueGrammar.Archive.Zstandard` — the zstandard format

A file is a list of frames. A frame is a header, blocks, and a checksum if the header says so. A
block is stored as it is, is one byte many times, or has literals and sequences of copies.

## Contents
- `Zstandard.Problem`, `Zstandard.Problem.text`.
- `Zstandard.Header`, `Zstandard.Header.read`.
- `Zstandard.Frame`: what a block depends on; `Zstandard.block`, `Zstandard.blocks`.
- `Zstandard.decode`.
-/

namespace ValueGrammar.Archive.Zstandard

/-- What is wrong with a file. -/
inductive Problem where
  | magic
  | cut
  | reservedBit
  | dictionary
  | window
  | reservedBlock
  | largeBlock
  | smallBlock
  | content
  | longFrame
  | shortFrame
  | checksum
  deriving Repr, DecidableEq, Inhabited

namespace Problem

/-- The message for people. -/
def text : Problem → String
  | .magic => "invalid input: magic number mismatch"
  | .cut => "unexpected EOF"
  | .reservedBit => "reserved bit set on frame header"
  | .dictionary => "unknown dictionary"
  | .window => "window size exceeded"
  | .reservedBlock => "invalid input: reserved block type encountered"
  | .largeBlock => "invalid input: compressed size too big"
  | .smallBlock => "block too small"
  | .content => "corruption detected"
  | .longFrame => "frame size exceeded"
  | .shortFrame => "frame size does not match size on stream"
  | .checksum => "CRC check failed"

end Problem

/-- Splits off `n` bytes. -/
def split (n : Nat) (bytes : List UInt8) : Except Problem (List UInt8 × List UInt8) :=
  match split? n bytes with
  | some r => .ok r
  | none => .error .cut

/-! ## Headers -/

/-- What the header of a frame says: how far copies may reach back, the size of the content if it is
known, and whether there is a checksum. -/
structure Header where
  window : Nat
  size : Option Nat
  checked : Bool
  deriving Repr, DecidableEq, Inhabited

/-- How many bytes the size of the content takes. -/
def sizeWidth (code : Nat) (single : Bool) : Nat :=
  match code with
  | 0 => if single then 1 else 0
  | 1 => 2
  | 2 => 4
  | _ => 8

/-- How many bytes the number of a dictionary takes. -/
def dictionaryWidth (code : Nat) : Nat :=
  match code with
  | 3 => 4
  | n => n

/-- The size of the content; two bytes start counting where one byte ends. -/
def sizeOf (bytes : List UInt8) : Option Nat :=
  match bytes.length with
  | 0 => none
  | 2 => some (number bytes + 256)
  | _ => some (number bytes)

/-- The size of a window: a power of two and some eighths of it. -/
def windowOf (b : Nat) : Nat :=
  let base := Nat.pow 2 (10 + b / 8)
  base + base / 8 * (b % 8)

/-- No window is smaller than this. -/
def minWindow : Nat := 1024

/-- No window is larger than this. -/
def maxWindow : Nat := 0x20000000

/-- No block is larger than this. -/
def maxBlock : Nat := 131072

namespace Header

/-- The header of a frame after its magic number, and the bytes after it. -/
def read (bytes : List UInt8) : Except Problem (Header × List UInt8) := do
  let (descriptor, rest) ← split 1 bytes
  let d := number descriptor
  let single := d.testBit 5
  if d.testBit 3 then throw .reservedBit
  let (window, rest) ← split (if single then 0 else 1) rest
  let (dictionary, rest) ← split (dictionaryWidth (d % 4)) rest
  let (size, rest) ← split (sizeWidth (d / 64) single) rest
  let size := sizeOf size
  let window := if single then max (size.getD 0) minWindow else windowOf (number window)
  if !single && maxWindow < window then throw .window
  if number dictionary ≠ 0 then throw .dictionary
  return (⟨window, size, d.testBit 2⟩, rest)

end Header

/-! ## Blocks -/

/-- The content of a frame so far, and what the next block may refer to. -/
structure Frame where
  out : Array UInt8 := #[]
  code : Option Huffman := none
  tables : Tables := {}
  offsets : Offsets := {}

namespace Frame

/-- Appends bytes. -/
def append (f : Frame) (bytes : List UInt8) : Frame :=
  { f with out := bytes.foldl Array.push f.out }

/-- Carries out sequences with the literals left; those that no sequence takes come last. -/
def execute (window : Nat) : List Sequence → List UInt8 → Frame → Option Frame
  | [], literals, f => some (f.append literals)
  | s :: rest, literals, f => do
    let (front, literals) ← split? s.literals literals
    let f := f.append front
    let (distance, offsets) := f.offsets.resolve s
    if distance = 0 ∨ f.out.size < distance ∨ window < distance then none
    execute window rest literals { f with out := copy distance s.length f.out, offsets }

/-- The frame after a block of literals and sequences. -/
def compressed? (window : Nat) (bytes : List UInt8) (f : Frame) : Option Frame := do
  let limit := min window maxBlock
  let (literals, code, rest) ← literals? limit f.code bytes
  let (sequences, tables) ← sequences? f.tables rest
  let g ← execute window sequences literals { f with code, tables }
  if limit < g.out.size - f.out.size then none else some g

end Frame

/-- The content of the blocks of a frame, and the bytes after the last one, or what is wrong with
the block that the content ends before. -/
def blocks (window : Nat) : Nat → Frame → List UInt8 → Array UInt8 × Except Problem (List UInt8)
  | 0, f, _ => (f.out, .error .cut)
  | fuel + 1, f, bytes =>
    let block : Except Problem (Bool × Frame × List UInt8) := do
      let (head, rest) ← split 3 bytes
      let h := number head
      let size := h / 8
      let last := h % 2 = 1
      let large := maxBlock < size ∨ window < size
      match h / 2 % 4 with
      | 0 =>
        if large then throw .window
        let (content, rest) ← split size rest
        return (last, f.append content, rest)
      | 1 =>
        if large then throw .window
        let (content, rest) ← split 1 rest
        return (last, f.append (List.replicate size (content.headD 0)), rest)
      | 2 =>
        if large then throw .largeBlock
        if size < 2 then throw .smallBlock
        let (content, rest) ← split size rest
        match f.compressed? window content with
        | some f => return (last, f, rest)
        | none => throw .content
      | _ => throw .reservedBlock
    match block with
    | .error p => (f.out, .error p)
    | .ok (last, f, rest) => if last then (f.out, .ok rest) else blocks window fuel f rest

/-! ## Frames -/

/-- Checks the content of a frame against what its header says; the bytes after its checksum. -/
def check (h : Header) (content : List UInt8) (bytes : List UInt8) :
    Except Problem (List UInt8) := do
  match h.size with
  | some n =>
    if n < content.length then throw .longFrame
    if content.length < n then throw .shortFrame
  | none => pure ()
  if h.checked then
    let (sum, rest) ← split 4 bytes
    if number sum ≠ (xxHash64 content).toNat % 0x100000000 then throw .checksum
    return rest
  else return bytes

/-- The content of a frame after its magic number, and the bytes after it. -/
def frame (bytes : List UInt8) : List UInt8 × Except Problem (List UInt8) :=
  match Header.read bytes with
  | .error p => ([], .error p)
  | .ok (h, rest) =>
    let (out, rest) := blocks h.window (rest.length + 1) {} rest
    let content := out.toList
    (content, rest >>= check h content)

/-- The first of the numbers that start a frame that is to be skipped; there are sixteen. -/
def skippable : Nat := 0x184d2a50

/-- The number that starts a frame. -/
def magic : Nat := 0xfd2fb528

/-- What follows a frame that is to be skipped, after its magic number. -/
def skipped (bytes : List UInt8) : Except Problem (List UInt8) := do
  let (size, rest) ← split 4 bytes
  let (_, rest) ← split (number size) rest
  return rest

/-- The content of the frames of a file. -/
def frames : Nat → List UInt8 → Content
  | _, [] => ⟨[], none⟩
  | 0, _ => ⟨[], some Problem.cut.text⟩
  | fuel + 1, bytes =>
    let wrong (p : Problem) : Content := ⟨[[]], some p.text⟩
    match split 4 bytes with
    | .error p => wrong p
    | .ok (start, rest) =>
      if number start = magic then
        match frame rest with
        | (content, .error p) => ⟨[content, []], some p.text⟩
        | (content, .ok rest) =>
          let more := frames fuel rest
          ⟨content :: more.pieces, more.failure⟩
      else if number start / 16 = skippable / 16 then
        match skipped rest with
        | .error p => wrong p
        | .ok rest => frames fuel rest
      else wrong .magic

/-- The content of a file. -/
def decode (bytes : List UInt8) : Content := frames bytes.length bytes

end ValueGrammar.Archive.Zstandard
