import ValueGrammar.Number.Binary64

/-!
# `ValueGrammar.Number.Reader` — reading a number

The text of a numeric token is read to the nearest double precision number.

A numeral is an optional sign, digits with at most one point among them, and an exponent. Decimal
numerals may leave the exponent out; hexadecimal ones, which start with `0x`, need one, marked by
`p` and counting powers of two. A `_` may stand between two digits, and after `0x`. Besides there
are `inf` and `infinity`, which take a sign, and `nan`, which does not. Letter case never matters.
A numeral whose value is out of range is not a number; one too small for the format is zero.

## Contents
- `Numeral`, `Numeral.read?`: the parts of a numeral.
- `separatorsOk`: where `_` may stand.
- `Numeral.magnitude?`, `Binary64.read?`.
-/

namespace ValueGrammar

/-- The parts of a numeral: its value is `mantissa * base ^ (-fraction)` times the radix of the
exponent (ten, or two in a hexadecimal numeral) to the power `exponent`. -/
structure Numeral where
  negative : Bool
  hexadecimal : Bool
  mantissa : Nat
  fraction : Nat
  exponent : Int
  deriving Repr, DecidableEq

namespace Numeral

/-- The value of a digit in the given base, which is ten or sixteen. -/
def digit? (hexadecimal : Bool) (c : Char) : Option Nat :=
  if c.isDigit then some (c.toNat - '0'.toNat)
  else if hexadecimal && 'a' ≤ c.toLower && c.toLower ≤ 'f' then
    some (c.toLower.toNat - 'a'.toNat + 10)
  else none

/-- Splits off the sign. -/
def takeSign : List Char → Bool × List Char
  | '+' :: r => (false, r)
  | '-' :: r => (true, r)
  | r => (false, r)

/-- What the digits of a numeral add up to so far. -/
structure Digits where
  mantissa : Nat := 0
  fraction : Nat := 0
  point : Bool := false
  any : Bool := false
  deriving Repr, DecidableEq

/-- Reads digits, `_` and the first point; returns the characters after them. -/
def takeDigits (hexadecimal : Bool) : List Char → Digits → Digits × List Char
  | [], d => (d, [])
  | c :: r, d =>
    if c == '_' then takeDigits hexadecimal r d
    else if c == '.' then
      if d.point then (d, c :: r) else takeDigits hexadecimal r { d with point := true }
    else
      match digit? hexadecimal c with
      | some v =>
        let base := if hexadecimal then 16 else 10
        takeDigits hexadecimal r
          { mantissa := d.mantissa * base + v
            fraction := if d.point then d.fraction + 1 else d.fraction
            point := d.point
            any := true }
      | none => (d, c :: r)

/-- Reads the digits of an exponent up to the end of the text. -/
def exponentDigits? : List Char → Nat → Option Nat
  | [], n => some n
  | c :: r, n =>
    if c == '_' then exponentDigits? r n
    else if c.isDigit then exponentDigits? r (n * 10 + (c.toNat - '0'.toNat))
    else none

/-- Reads what follows the exponent mark: an optional sign, a digit, and more digits. -/
def exponent? (cs : List Char) : Option Int :=
  let (negative, r) := takeSign cs
  match r with
  | [] => none
  | c :: _ =>
    if c.isDigit then
      (exponentDigits? r 0).map fun n => if negative then -(n : Int) else n
    else none

/-- Does the text start like a hexadecimal numeral, with something after the `0x`? -/
def takeHexMark : List Char → Option (List Char)
  | '0' :: x :: c :: r => if x.toLower == 'x' then some (c :: r) else none
  | _ => none

/-- Splits a text into the parts of a numeral. Where `_` stands is not looked at. -/
def parts? (cs : List Char) : Option Numeral :=
  let (negative, unsigned) := takeSign cs
  let (hexadecimal, body) :=
    match takeHexMark unsigned with
    | some body => (true, body)
    | none => (false, unsigned)
  let (d, rest) := takeDigits hexadecimal body {}
  if !d.any then none
  else
    let numeral (e : Int) : Numeral := ⟨negative, hexadecimal, d.mantissa, d.fraction, e⟩
    match rest with
    | [] => if hexadecimal then none else some (numeral 0)
    | c :: r =>
      if c.toLower == (if hexadecimal then 'p' else 'e') then (exponent? r).map numeral
      else none

/-- What `separatorsOk` saw last. -/
inductive Seen where
  | start
  | digit
  | separator
  | other
  deriving Repr, DecidableEq

/-- Every `_` from here on stands between two digits. -/
def separatorsBetween (hexadecimal : Bool) : List Char → Seen → Bool
  | [], seen => seen != .separator
  | c :: r, seen =>
    if (digit? hexadecimal c).isSome then separatorsBetween hexadecimal r .digit
    else if c == '_' then seen == .digit && separatorsBetween hexadecimal r .separator
    else seen != .separator && separatorsBetween hexadecimal r .other

/-- Every `_` stands between two digits, where a base mark counts as one. -/
def separatorsOk (cs : List Char) : Bool :=
  match (takeSign cs).2 with
  | '0' :: x :: r =>
    if x.toLower == 'x' then separatorsBetween true r .digit
    else if x.toLower == 'b' || x.toLower == 'o' then separatorsBetween false r .digit
    else separatorsBetween false ('0' :: x :: r) .start
  | r => separatorsBetween false r .start

/-- Reads a numeral that takes up the whole text. -/
def read? (cs : List Char) : Option Numeral :=
  if cs.contains '_' && !separatorsOk cs then none else parts? cs

/-- The nearest magnitude to `n * base ^ e`, without computing powers that cannot matter. -/
def scaled? (base low high : Nat) (size : Nat) (n : Nat) (e : Int) : Option Nat :=
  if n == 0 then some 0
  else if (high : Int) < size + e then none
  else if (size : Int) + e < -(low : Int) then some 0
  else match e with
    | .ofNat k => Binary64.roundRatio (n * Nat.pow base k) 1
    | .negSucc k => Binary64.roundRatio n (Nat.pow base (k + 1))

/-- The nearest magnitude, or `none` if it is out of range. -/
def magnitude? (n : Numeral) : Option Nat :=
  if n.hexadecimal then
    scaled? 2 1200 1100 (n.mantissa.log2 + 1) n.mantissa (n.exponent - 4 * n.fraction)
  else
    scaled? 10 400 400 (Nat.toDigits 10 n.mantissa).length n.mantissa (n.exponent - n.fraction)

end Numeral

namespace Binary64

/-- The values written as words. -/
def word? (cs : List Char) : Option Binary64 :=
  let isInfinity (r : List Char) : Bool :=
    let w := r.map Char.toLower
    w == "inf".toList || w == "infinity".toList
  if cs.map Char.toLower == "nan".toList then some .nan
  else
    let (negative, r) := Numeral.takeSign cs
    if isInfinity r then some (.infinite negative) else none

/-- Reads a number that takes up the whole text. -/
def read? (s : String) : Option Binary64 :=
  match word? s.toList with
  | some v => some v
  | none => do
    let n ← Numeral.read? s.toList
    let m ← n.magnitude?
    return .finite n.negative m

end Binary64

end ValueGrammar
