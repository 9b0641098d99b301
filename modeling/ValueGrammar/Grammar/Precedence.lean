import ValueGrammar.Grammar

/-!
# `ValueGrammar.Grammar.Precedence` — which combinator binds tighter

The terms of a group are written in one row with a combinator between neighbours. Juxtaposition
binds tighter than `&&`, that tighter than `||`, and `|` is the loosest; `regroup` nests a row into
groups accordingly.
-/

namespace ValueGrammar

namespace Combinator

/-- The combinators from the loosest to the tightest. -/
def looseToTight : List Combinator := [.one, .any, .all, .juxtapose]

end Combinator

/-- A row of terms: the first one, and each further one with the combinator before it. -/
structure Row where
  head : Grammar
  tail : List (Combinator × Grammar)
  deriving Repr, Inhabited

namespace Row

/-- The terms in the order they were written. -/
def terms (r : Row) : List Grammar := r.head :: r.tail.map (·.2)

/-- Cuts a row at every occurrence of a combinator; there is always a first part. -/
def cut (c : Combinator) (head : Grammar) : List (Combinator × Grammar) → Row × List Row
  | [] => (⟨head, []⟩, [])
  | (d, t) :: rest =>
    let (part, parts) := cut c t rest
    if d = c then (⟨head, []⟩, part :: parts)
    else (⟨head, (d, part.head) :: part.tail⟩, parts)

/-- Nests a row into groups, trying the given combinators from the loosest on. The answer holds the
terms of the wrapping group and its combinator. -/
def regroup : List Combinator → Row → List Grammar × Combinator
  | [], row => (row.terms, .juxtapose)
  | c :: tighter, row =>
    match cut c row.head row.tail with
    | (_, []) => regroup tighter row
    | (part, parts) =>
      let nest (r : Row) : Grammar :=
        if r.tail.isEmpty then r.head
        else
          let (terms, d) := regroup tighter r
          .group d terms false false
      ((part :: parts).map nest, c)

/-- The group a row of terms stands for. -/
def toGroup (row : Row) (bracketed : Bool) : Grammar :=
  let (terms, c) := regroup Combinator.looseToTight row
  .group c terms bracketed false

end Row

end ValueGrammar
