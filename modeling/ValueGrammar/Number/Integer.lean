import ValueGrammar.Number.Reader

/-!
# `ValueGrammar.Number.Integer` — reading an integer of 64 bits

The base is ten unless the digits start with `0x`, `0o`, `0b`, or with a zero, which stands for
eight. A `_` may stand between two digits, and after the mark of the base.

## Contents
- `Integer.base`, `Integer.digits?`, `Integer.read?`.
-/

namespace ValueGrammar.Integer

/-- The base of unsigned digits, and the digits without its mark. -/
def base : List Char → Nat × List Char
  | '0' :: mark :: c :: rest =>
    match mark.toLower with
    | 'x' => (16, c :: rest)
    | 'o' => (8, c :: rest)
    | 'b' => (2, c :: rest)
    | _ => (8, mark :: c :: rest)
  | '0' :: rest => (8, rest)
  | rest => (10, rest)

/-- The number that digits of a base make; `_` does not count. -/
def digits? (base : Nat) : List Char → Nat → Option Nat
  | [], n => some n
  | c :: rest, n =>
    if c == '_' then digits? base rest n
    else
      match Numeral.digit? true c with
      | some v => if v < base then digits? base rest (n * base + v) else none
      | none => none

/-- Reads an integer that takes up the whole text and fits in 64 bits. -/
def read? (s : String) : Option Int := do
  let cs := s.toList
  let (negative, unsigned) := Numeral.takeSign cs
  if unsigned.isEmpty || (cs.contains '_' && !Numeral.separatorsOk cs) then none
  let (b, digits) := base unsigned
  let n ← digits? b digits 0
  let value : Int := if negative then -(n : Int) else n
  if -0x8000000000000000 ≤ value ∧ value < 0x8000000000000000 then some value else none

end ValueGrammar.Integer
