import ValueGrammar.Text.Utf8
import ValueGrammar.Yaml.Problem

/-!
# `ValueGrammar.Yaml.Input` — the characters of a document

Bytes are turned into characters window by window, and no earlier than they are asked for. A window
that holds something that is not a character of a document cannot be read at all; that is not seen
as long as nothing of it is asked for.

## Contents
- `Source`: bytes, and why there are no more of them.
- `Encoding`, `Encoding.ofBytes`: how characters are written, as the first bytes say.
- `Input`, `Input.ofSource`: the characters that can be read, and the windows they come in.
-/

namespace ValueGrammar.Yaml

/-- Bytes in the pieces they are fetched in, and what went wrong when the end of the last piece was
fetched, if anything did. -/
structure Source where
  pieces : List (List UInt8)
  failure : Option String := none
  deriving Repr, Inhabited

namespace Source

/-- Bytes that are all there. -/
def ofBytes (bytes : List UInt8) : Source := { pieces := [bytes] }

/-- The bytes of a text. -/
def ofText (text : String) : Source := ofBytes text.toUTF8.toList

end Source

/-- A character that documents may hold. -/
def isAllowed (code : Nat) : Bool :=
  code == 0x09 || code == 0x0a || code == 0x0d || (0x20 ≤ code && code ≤ 0x7e) || code == 0x85 ||
    (0xa0 ≤ code && code ≤ 0xd7ff) || (0xe000 ≤ code && code ≤ 0xfffd) ||
    (0x10000 ≤ code && code ≤ 0x10ffff)

/-- What stands at the start of bytes. -/
inductive Step where
  | character (code width : Nat)
  /-- more bytes are needed; if there are none, that is a problem -/
  | cut (cause : Cause)
  | wrong (cause : Cause)
  deriving Repr, DecidableEq, Inhabited

/-- How characters are written as bytes. -/
inductive Encoding where
  | utf8
  | utf16 (littleEndian : Bool)
  deriving Repr, DecidableEq, Inhabited

namespace Encoding

/-- The encoding that the first bytes mark, and how many bytes the mark has. -/
def ofBytes : List UInt8 → Encoding × Nat
  | 0xff :: 0xfe :: _ => (.utf16 true, 2)
  | 0xfe :: 0xff :: _ => (.utf16 false, 2)
  | 0xef :: 0xbb :: 0xbf :: _ => (.utf8, 3)
  | _ => (.utf8, 0)

/-- The first character of bytes of one to four octets. -/
def stepUtf8 : List UInt8 → Step
  | [] => .cut .cutOctets
  | b :: rest =>
    match Text.leadWidth? b with
    | none => .wrong .leadingOctet
    | some width =>
      let trail := rest.take (width - 1)
      let code := trail.foldl Text.withTrail (Text.leadValue width b)
      if trail.length < width - 1 then .cut .cutOctets
      else if !trail.all Text.isTrail then .wrong .trailingOctet
      else if code < Text.leastOfWidth width then .wrong .octetCount
      else if !code.isValidChar then .wrong .invalidCharacter
      else .character code width

/-- The number that two bytes make. -/
def unit (littleEndian : Bool) (a b : UInt8) : Nat :=
  if littleEndian then a.toNat + 256 * b.toNat else 256 * a.toNat + b.toNat

/-- The first character of bytes of one or two units. -/
def stepUtf16 (littleEndian : Bool) : List UInt8 → Step
  | a :: b :: rest =>
    let high := unit littleEndian a b
    if high / 0x400 = 0x37 then .wrong .lowSurrogate
    else if high / 0x400 = 0x36 then
      match rest with
      | c :: d :: _ =>
        let low := unit littleEndian c d
        if low / 0x400 = 0x37 then .character (0x10000 + high % 0x400 * 0x400 + low % 0x400) 4
        else .wrong .noLowSurrogate
      | _ => .cut .cutPair
    else .character high 2
  | _ => .cut .cutUnit

/-- The first character of bytes. -/
def step : Encoding → List UInt8 → Step
  | .utf8 => stepUtf8
  | .utf16 littleEndian => stepUtf16 littleEndian

/-- The characters of a window, and the bytes at its end that are only a part of one. -/
def window (e : Encoding) : Nat → List UInt8 → Except Cause (List Char × List UInt8)
  | 0, bytes => .ok ([], bytes)
  | _, [] => .ok ([], [])
  | fuel + 1, bytes =>
    match e.step bytes with
    | .wrong cause => .error cause
    | .cut _ => .ok ([], bytes)
    | .character code width =>
      if isAllowed code then do
        let (chars, rest) ← e.window fuel (bytes.drop width)
        return (Char.ofNat code :: chars, rest)
      else .error .controlCharacter

/-- What is wrong with a part of a character after which nothing comes. -/
def cutCause (e : Encoding) (bytes : List UInt8) : Option Cause :=
  match e.step bytes with
  | .cut cause => if bytes.isEmpty then none else some cause
  | _ => none

end Encoding

/-- The characters that can be read, the sizes of the windows they come in, and what is wrong with
what comes after them, if it is not the end. -/
structure Input where
  chars : List Char
  windows : List Nat
  failure : Option Cause
  deriving Repr, Inhabited

namespace Input

/-- The most bytes that a window holds. -/
def windowSize : Nat := 512

/-- The input of pieces, of which the first window has room for so many bytes, after a part of a
character. -/
def ofPieces (e : Encoding) (failure : Option String) :
    Nat → Nat → List UInt8 → List (List UInt8) → Input
  | 0, _, _, _ => ⟨[], [], none⟩
  | _, _, part, [] => ⟨[], [], e.cutCause part⟩
  | fuel + 1, room, part, piece :: pieces =>
    let left := piece.drop (room - part.length)
    let pieces := if left.isEmpty then pieces else left :: pieces
    match failure, pieces, e.window room (part ++ piece.take (room - part.length)) with
    | some message, [], _ => ⟨[], [], some (.input message)⟩
    | _, _, .error cause => ⟨[], [], some cause⟩
    | _, _, .ok (chars, part) =>
      let more := ofPieces e failure fuel windowSize part pieces
      ⟨chars ++ more.chars, chars.length :: more.windows, more.failure⟩

/-- Pieces without the first `n` bytes. -/
def dropBytes : Nat → List (List UInt8) → List (List UInt8)
  | _, [] => []
  | n, piece :: pieces =>
    if piece.length ≤ n ∧ !pieces.isEmpty then dropBytes (n - piece.length) pieces
    else piece.drop n :: pieces

/-- The characters of a document; a mark of the encoding is none of them. -/
def ofSource (s : Source) : Input :=
  let bytes := s.pieces.flatten
  let (encoding, width) := Encoding.ofBytes bytes
  ofPieces encoding s.failure (bytes.length + s.pieces.length + 1) (windowSize - width) []
    (dropBytes width s.pieces)

end Input

end ValueGrammar.Yaml
