/-!
# `ValueGrammar.Yaml.Timestamp` — is a text a point in time?

A date is a year of four digits, a month and a day. A time of day may follow it: after `T` with a
zone, or after spaces without one.

## Contents
- `Timestamp.days`: how long a month is.
- `Timestamp.date?`, `Timestamp.clock?`, `Timestamp.zone?`: the parts, and what follows them.
- `isTimestamp`.
-/

namespace ValueGrammar.Yaml

namespace Timestamp

/-- The days of a month. -/
def days (year month : Nat) : Nat :=
  if month = 2 then
    (if year % 4 = 0 ∧ (year % 100 ≠ 0 ∨ year % 400 = 0) then 29 else 28)
  else if [4, 6, 9, 11].contains month then 30
  else 31

/-- The value of a digit. -/
def digit (c : Char) : Nat := c.toNat - '0'.toNat

/-- A number of one or two digits. -/
def short? : List Char → Option (Nat × List Char)
  | a :: b :: rest =>
    if !a.isDigit then none
    else if b.isDigit then some (digit a * 10 + digit b, rest)
    else some (digit a, b :: rest)
  | [a] => if a.isDigit then some (digit a, []) else none
  | [] => none

/-- What follows a character. -/
def after? (c : Char) : List Char → Option (List Char)
  | d :: rest => if c = d then some rest else none
  | [] => none

/-- What follows a date. -/
def date? (cs : List Char) : Option (List Char) := do
  let digits := cs.takeWhile Char.isDigit
  if digits.length ≠ 4 then none
  let year := digits.foldl (fun n c => n * 10 + digit c) 0
  let rest ← after? '-' (cs.drop 4)
  let (month, rest) ← short? rest
  let rest ← after? '-' rest
  let (day, rest) ← short? rest
  if 1 ≤ month ∧ month ≤ 12 ∧ 1 ≤ day ∧ day ≤ days year month then some rest else none

/-- What follows a fraction of a second, if there is one. -/
def afterFraction : List Char → List Char
  | p :: d :: rest =>
    if (p == '.' || p == ',') && d.isDigit then rest.dropWhile Char.isDigit else p :: d :: rest
  | rest => rest

/-- What follows a time of day. -/
def clock? (cs : List Char) : Option (List Char) := do
  let (hour, rest) ← short? cs
  let (minute, rest) ← short? (← after? ':' rest)
  let (second, rest) ← short? (← after? ':' rest)
  if hour < 24 ∧ minute < 60 ∧ second < 60 then some (afterFraction rest) else none

/-- What follows a zone. -/
def zone? : List Char → Option (List Char)
  | 'Z' :: rest => some rest
  | sign :: a :: b :: ':' :: c :: d :: rest =>
    let hours := digit a * 10 + digit b
    let minutes := digit c * 10 + digit d
    if (sign == '+' || sign == '-') && [a, b, c, d].all Char.isDigit && hours ≤ 24 &&
        minutes ≤ 60 then
      some rest
    else none
  | _ => none

end Timestamp

/-- Is a text a point in time? -/
def isTimestamp (cs : List Char) : Bool :=
  let ends (r : Option (List Char)) : Bool := r == some []
  match Timestamp.date? cs with
  | none => false
  | some [] => true
  | some (c :: rest) =>
    if c == 'T' || c == 't' then ends (Timestamp.clock? rest >>= Timestamp.zone?)
    else if c == ' ' then ends (Timestamp.clock? (rest.dropWhile (· == ' ')))
    else false

end ValueGrammar.Yaml
