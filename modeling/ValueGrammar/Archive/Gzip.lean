import ValueGrammar.Archive.Deflate

/-!
# `ValueGrammar.Archive.Gzip` — the gzip format

A file is a list of members, each a header, deflated data, and a checksum and the length of the
data. The header of the first member decides whether a file is of the format at all; what is wrong
later is seen when the data is read that far.

## Contents
- `crc32`: the checksum.
- `Gzip.Problem`, `Gzip.header`, `Gzip.decode`.
-/

namespace ValueGrammar.Archive

/-- The remainder after one more bit. -/
def crcBit (r : UInt32) : UInt32 := if r &&& 1 == 1 then (r >>> 1) ^^^ 0xedb88320 else r >>> 1

/-- The remainder after one more byte. -/
def crcByte (r : UInt32) (b : UInt8) : UInt32 := Nat.repeat crcBit 8 (r ^^^ b.toUInt32)

/-- The cyclic redundancy check of bytes. -/
def crc32 (bytes : List UInt8) : UInt32 := bytes.foldl crcByte 0xffffffff ^^^ 0xffffffff

namespace Gzip

/-- Why a file or a member does not start like the format. -/
inductive Problem where
  /-- there is nothing -/
  | empty
  /-- it ends in its header -/
  | cut
  /-- its header is another one -/
  | header
  deriving Repr, DecidableEq, Inhabited

namespace Problem

/-- The message for people. -/
def text : Problem → String
  | .empty => "EOF"
  | .cut => "unexpected EOF"
  | .header => "gzip: invalid header"

end Problem

/-- Names and comments in a header are shorter than this. -/
def textLimit : Nat := 512

/-- What follows a text that ends with a zero. -/
def afterText (bytes : List UInt8) : Except Problem (List UInt8) :=
  let text := bytes.takeWhile (· != 0)
  if textLimit ≤ text.length then .error .header
  else
    match bytes.drop text.length with
    | [] => .error .cut
    | _ :: rest => .ok rest

/-- What follows a number of bytes. -/
def after (n : Nat) (bytes : List UInt8) : Except Problem (List UInt8) :=
  match split? n bytes with
  | some (_, rest) => .ok rest
  | none => .error .cut

/-- What follows a part that is there only if a flag is set. -/
def afterIf (flag : Bool) (skip : List UInt8 → Except Problem (List UInt8)) (bytes : List UInt8) :
    Except Problem (List UInt8) :=
  if flag then skip bytes else .ok bytes

/-- What follows a field that starts with its length. -/
def afterExtra (bytes : List UInt8) : Except Problem (List UInt8) :=
  after (2 + number (bytes.take 2)) bytes

/-- What follows the checksum of the header in front of it. -/
def afterCheck (whole bytes : List UInt8) : Except Problem (List UInt8) := do
  let rest ← after 2 bytes
  let header := whole.take (whole.length - bytes.length)
  if number (bytes.take 2) = (crc32 header).toNat % 65536 then return rest else .error .header

/-- What follows the header of a member. -/
def header (bytes : List UInt8) : Except Problem (List UInt8) := do
  if bytes.isEmpty then .error .empty
  let rest ← after 10 bytes
  if bytes.take 3 ≠ [0x1f, 0x8b, 8] then .error .header
  let flags := (bytes.getD 3 0).toNat
  let rest ← afterIf (flags.testBit 2) afterExtra rest
  let rest ← afterIf (flags.testBit 3) afterText rest
  let rest ← afterIf (flags.testBit 4) afterText rest
  afterIf (flags.testBit 1) (afterCheck bytes) rest

/-- What is wrong with the end of a member whose data is known, if anything is; else what follows
it. -/
def trailer (data : List UInt8) (bytes : List UInt8) : Except String (List UInt8) :=
  match split? 8 bytes with
  | none => .error Problem.cut.text
  | some (trailer, rest) =>
    if number (trailer.take 4) = (crc32 data).toNat ∧
        number (trailer.drop 4) = data.length % 0x100000000 then
      .ok rest
    else .error "gzip: invalid checksum"

/-- The data of all the members after a header. -/
def members : Nat → List UInt8 → Content
  | 0, _ => ⟨[], some Problem.cut.text⟩
  | fuel + 1, bytes =>
    let r := Deflate.inflate bytes
    let data := r.out.toList
    match r.failure bytes.length with
    | some message => ⟨[data], some message⟩
    | none =>
      match trailer data (bytes.drop (bytes.length - r.left)) with
      | .error message => ⟨[data], some message⟩
      | .ok [] => ⟨[data], none⟩
      | .ok rest =>
        match header rest with
        | .error p => ⟨[data], some p.text⟩
        | .ok rest =>
          let more := members fuel rest
          ⟨data :: more.pieces, more.failure⟩

/-- The data of a file, if it starts like one of the format. -/
def decode (bytes : List UInt8) : Except Problem Content := do
  return members (bytes.length + 1) (← header bytes)

end Gzip

end ValueGrammar.Archive
