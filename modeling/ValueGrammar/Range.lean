import ValueGrammar.Number.Shortest

/-!
# `ValueGrammar.Range` — numeric ranges

The closed interval a type reference such as `<number [0,1]>` restricts its values to.
-/

namespace ValueGrammar

/-- A closed interval of numbers. -/
structure Range where
  lo : Binary64
  hi : Binary64
  deriving Repr, DecidableEq

namespace Range

/-- Is the number within the interval? -/
def contains (r : Range) (v : Binary64) : Bool := r.lo.le v && v.le r.hi

/-- A bound as it is written in a grammar. -/
def boundText : Binary64 → String
  | .finite negative m => (if negative then "-" else "") ++ Binary64.magnitudeText m
  | .infinite negative => if negative then "-∞" else "∞"
  | .nan => "NaN"

/-- The interval as it is written in a grammar. -/
def text (r : Range) : String := "[" ++ boundText r.lo ++ "," ++ boundText r.hi ++ "]"

end Range

end ValueGrammar
