/-!
# `ValueGrammar.Text.Utf8` — characters of bytes

How characters are written as bytes, and what is shown for bytes that are not characters.

## Contents
- `leadWidth?`, `leadValue`: what the first byte of a character says.
- `isTrail`, `withTrail`: the bytes after the first.
- `ofBytesLossy`: a text of any bytes.
-/

namespace ValueGrammar.Text

/-- The number of bytes of the character that a byte starts, if it starts one. -/
def leadWidth? (b : UInt8) : Option Nat :=
  if b < 0x80 then some 1
  else if b < 0xc0 then none
  else if b < 0xe0 then some 2
  else if b < 0xf0 then some 3
  else if b < 0xf8 then some 4
  else none

/-- What the first byte of a character of so many bytes adds to its code. -/
def leadValue (width : Nat) (b : UInt8) : Nat :=
  match width with
  | 1 => b.toNat
  | 2 => b.toNat % 32
  | 3 => b.toNat % 16
  | _ => b.toNat % 8

/-- Can the byte stand after the first one of a character? -/
def isTrail (b : UInt8) : Bool := 0x80 ≤ b && b < 0xc0

/-- The code after one more byte. -/
def withTrail (code : Nat) (b : UInt8) : Nat := code * 64 + b.toNat % 64

/-- The least code that needs so many bytes. -/
def leastOfWidth : Nat → Nat
  | 0 | 1 => 0
  | 2 => 0x80
  | 3 => 0x800
  | _ => 0x10000

/-- The character that the first bytes make, and how many they are. -/
def firstChar? : List UInt8 → Option (Char × Nat)
  | [] => none
  | b :: rest => do
    let width ← leadWidth? b
    let trail := rest.take (width - 1)
    let code := trail.foldl withTrail (leadValue width b)
    if trail.length = width - 1 ∧ trail.all isTrail ∧ leastOfWidth width ≤ code ∧
        code.isValidChar then
      some (Char.ofNat code, width)
    else none

/-- The characters of bytes; a byte that belongs to no character shows as the replacement
character. -/
def ofBytesWithin : Nat → List UInt8 → List Char
  | 0, _ => []
  | _, [] => []
  | fuel + 1, b :: rest =>
    match firstChar? (b :: rest) with
    | some (c, width) => c :: ofBytesWithin fuel (rest.drop (width - 1))
    | none => '\ufffd' :: ofBytesWithin fuel rest

/-- A text of any bytes. -/
def ofBytesLossy (bytes : List UInt8) : String :=
  String.ofList (ofBytesWithin bytes.length bytes)

end ValueGrammar.Text
