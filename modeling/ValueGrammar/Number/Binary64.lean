/-!
# `ValueGrammar.Number.Binary64` — double precision numbers, exactly

The bounds of numeric ranges and the numbers compared with them are double precision numbers. A
finite one is kept as its sign and its magnitude counted in units of `2⁻¹⁰⁷⁴`, the distance between
the smallest ones, so that comparing two numbers is comparing two integers.

## Contents
- `Binary64`, negation, the zero test, `le`.
- `divHalfEven`: quotient rounded to nearest, a half going to the even neighbour.
- `roundRatio`: the magnitude nearest to a ratio of naturals, if it is in range.
-/

namespace ValueGrammar

/-- A double precision number; `magnitude` counts units of `2⁻¹⁰⁷⁴`. -/
inductive Binary64 where
  | finite (negative : Bool) (magnitude : Nat)
  | infinite (negative : Bool)
  | nan
  deriving Repr, DecidableEq

namespace Binary64

/-- There are `2 ^ unitBits` units in one. -/
def unitBits : Nat := 1074

/-- How many leading bits of a magnitude are kept. -/
def precision : Nat := 53

/-- Magnitudes from here on are out of range. -/
def limit : Nat := Nat.pow 2 (1024 + unitBits)

/-- Positive infinity. -/
def posInf : Binary64 := .infinite false

/-- Negative infinity. -/
def negInf : Binary64 := .infinite true

/-- The number with the other sign; zero has two of them. -/
def neg : Binary64 → Binary64
  | .finite s m => .finite (!s) m
  | .infinite s => .infinite (!s)
  | .nan => .nan

/-- Either zero. -/
def isZero : Binary64 → Bool
  | .finite _ 0 => true
  | _ => false

/-- The signed number of units. -/
def units (negative : Bool) (magnitude : Nat) : Int :=
  if negative then -(magnitude : Int) else magnitude

/-- The order of numbers. The two zeros are equal, and nothing compares with `nan`. -/
def le : Binary64 → Binary64 → Bool
  | .nan, _ => false
  | _, .nan => false
  | .infinite true, _ => true
  | _, .infinite false => true
  | .infinite false, _ => false
  | _, .infinite true => false
  | .finite s m, .finite t n => decide (units s m ≤ units t n)

/-- `num / den` rounded to the nearest natural; a half goes to the even neighbour. -/
def divHalfEven (num den : Nat) : Nat :=
  let q := num / den
  let r := num % den
  if 2 * r < den then q
  else if den < 2 * r then q + 1
  else if q % 2 == 0 then q else q + 1

/-- How many low bits a magnitude of the size of `m` does not keep. -/
def droppedBits (m : Nat) : Nat := m.log2 + 1 - precision

/-- The magnitude nearest to `num / den`, or `none` if that is out of range. -/
def roundRatio (num den : Nat) : Option Nat :=
  let scaled := num <<< unitBits
  let k := droppedBits (scaled / den)
  let m := divHalfEven scaled (den <<< k) <<< k
  if m < limit then some m else none

end Binary64

end ValueGrammar
