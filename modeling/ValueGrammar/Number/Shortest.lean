import ValueGrammar.Number.Binary64

/-!
# `ValueGrammar.Number.Shortest` — writing a number

A number is written with the fewest decimal digits that read back as the same number, and among
those with the nearest ones. The notation is positional whatever the size: there is no exponent.

## Contents
- `Decimal`: digits and a power of ten, `Decimal.magnitude?` reads it back.
- `Decimal.candidates`: the two neighbours of a magnitude on a decimal grid, the nearer one first.
- `Decimal.shortest`, `Decimal.text`, `Binary64.text`.
-/

namespace ValueGrammar

/-- The value `digits * 10 ^ scale`. -/
structure Decimal where
  digits : Nat
  scale : Int
  deriving Repr, DecidableEq

namespace Decimal

/-- The magnitude nearest to the decimal. -/
def magnitude? (d : Decimal) : Option Nat :=
  match d.scale with
  | .ofNat k => Binary64.roundRatio (d.digits * Nat.pow 10 k) 1
  | .negSucc k => Binary64.roundRatio d.digits (Nat.pow 10 (k + 1))

/-- A scale at which every magnitude but zero has an integral part. -/
def guardDigits : Nat := 330

/-- The number of digits before the point; not positive for magnitudes below a tenth. -/
def integralDigits (m : Nat) : Int :=
  let whole := (m * Nat.pow 10 guardDigits) >>> Binary64.unitBits
  ((Nat.toDigits 10 whole).length : Int) - guardDigits

/-- The neighbours of `m` among the multiples of `10 ^ scale`, the nearer one first; halfway the
even one goes first. -/
def candidates (m : Nat) (scale : Int) : List Decimal :=
  let (num, den) :=
    match scale with
    | .ofNat k => (m, Nat.pow 10 k <<< Binary64.unitBits)
    | .negSucc k => (m * Nat.pow 10 (k + 1), 1 <<< Binary64.unitBits)
  let q := num / den
  let below : Decimal := ⟨q, scale⟩
  let above : Decimal := ⟨q + 1, scale⟩
  if Binary64.divHalfEven num den == q then [below, above] else [above, below]

/-- The whole decimal expansion of a magnitude. -/
def exact (m : Nat) : Decimal :=
  ⟨m * Nat.pow 5 Binary64.unitBits, -(Binary64.unitBits : Int)⟩

/-- The shortest decimal that reads back as `m`, nearest first. -/
def shortest (m : Nat) : Decimal :=
  let p := integralDigits m
  let grids := (List.range 17).flatMap fun n => candidates m (p - (n + 1 : Nat))
  (grids.find? fun d => d.magnitude? == some m).getD (exact m)

/-- Positional notation, without zeros at the end of the places after the point. -/
def text (d : Decimal) : String :=
  let ds := Nat.toDigits 10 d.digits
  match d.scale with
  | .ofNat k => String.ofList (ds ++ List.replicate k '0')
  | .negSucc k =>
    let places := k + 1
    let padded := List.replicate (places + 1 - ds.length) '0' ++ ds
    let cut := padded.length - places
    let fraction := ((padded.drop cut).reverse.dropWhile (· == '0')).reverse
    String.ofList (padded.take cut ++ if fraction.isEmpty then [] else '.' :: fraction)

end Decimal

/-- A finite magnitude in positional notation. -/
def Binary64.magnitudeText (m : Nat) : String :=
  if m == 0 then "0" else (Decimal.shortest m).text

end ValueGrammar
