import ValueGrammar.Machine

/-!
# `ValueGrammar.Matcher` — matching a list of tokens against a grammar

A matcher says which tokens are significant and how many steps a match may take; the rest is the
work of the machine.

## Contents
- `Significance`: the usual choices of which tokens are skipped.
- `Reason`, `MatchResult`, `MatchResult.offset`.
- `Matcher`, `Matcher.run`.
-/

namespace ValueGrammar

/-- Which tokens a matcher sees. -/
inductive Significance where
  /-- all but whitespace and comments -/
  | standard
  /-- all of them -/
  | everything
  /-- all but whitespace -/
  | withComments
  deriving Repr, DecidableEq, Inhabited

namespace Significance

/-- Does a matcher see the token? -/
def sees : Significance → Token → Bool
  | .standard, t => t.isSignificant
  | .everything, _ => true
  | .withComments, t => t.kind != .whitespace

end Significance

/-- Why a match ended. -/
inductive Reason where
  | mismatched
  | matched
  | limited
  deriving Repr, DecidableEq, Inhabited

namespace Reason

/-- The name of a reason. -/
def text : Reason → String
  | .mismatched => "Mismatch"
  | .matched => "Match"
  | .limited => "IterationLimitExceeded"

/-- The name of the reason with the given number, which need not exist. -/
def nameOfCode (code : Int) : String :=
  if code == 0 then Reason.mismatched.text
  else if code == 1 then Reason.matched.text
  else if code == 2 then Reason.limited.text
  else "Reason(" ++ toString code ++ ")"

end Reason

/-- How many characters the tokens have before the significant one with number `n`, or all of them
if there is none. -/
def offsetOf (sees : Token → Bool) : Nat → List Token → Nat
  | _, [] => 0
  | n, t :: ts =>
    if sees t then
      match n with
      | 0 => 0
      | k + 1 => t.value.length + offsetOf sees k ts
    else t.value.length + offsetOf sees n ts

/-- The outcome of a match. -/
structure MatchResult where
  reason : Reason
  /-- how many steps it took -/
  iterations : Nat
  /-- the most significant tokens any path has taken -/
  longest : Nat
  /-- where in the text of all the tokens the longest path ended, in characters -/
  offset : Nat
  /-- how the tokens were matched, if they were -/
  trace : Option Trace
  /-- the grammar they were matched against -/
  grammar : Grammar
  deriving Inhabited

namespace MatchResult

/-- Did the tokens match? -/
def matched (r : MatchResult) : Bool := r.reason == .matched

/-- The trace as a flat list. -/
def list? (r : MatchResult) : Option (List TraceItem) := r.trace.map Trace.items

/-- The trace as a tree. -/
def tree? (r : MatchResult) : Option TraceTree := r.trace.map fun tr => Trace.tree tr r.grammar

end MatchResult

/-- How matches are made: the most steps one may take, whether some types are put off, and which
tokens are seen. -/
structure Matcher where
  limit : Int
  lowPriority : Bool
  sees : Token → Bool

namespace Matcher

variable {ε : Type}

/-- The machine for a list of tokens. -/
def machine (m : Matcher) (tokens : List Token) (resolve : Reference → Except ε (Option State)) :
    Machine ε where
  tokens := tokens.filter m.sees
  resolve := resolve
  lowPriority := m.lowPriority

/-- The result of a run, unless it failed. -/
def result (m : Matcher) (tokens : List Token) (g : Grammar) (r : Machine.Run ε) :
    Except (MachineError ε) MatchResult :=
  let make (reason : Reason) (trace : Option Trace) : MatchResult :=
    { reason
      iterations := r.steps
      longest := r.final.longest
      offset := offsetOf m.sees r.final.longest tokens
      trace
      grammar := g }
  match r.outcome with
  | .matched => .ok (make .matched (some r.final.trace))
  | .mismatched => .ok (make .mismatched none)
  | .limited => .ok (make .limited none)
  | .failed e => .error e

/-- Matches tokens against a compiled grammar. The second answer holds the references that were
looked up, in order. -/
def run (m : Matcher) (tokens : List Token) (g : Graph)
    (resolve : Reference → Except ε (Option State)) :
    Except (MachineError ε) MatchResult × List Reference :=
  let r := (m.machine tokens resolve).run m.limit.toNat g.root
  (m.result tokens g.grammar r, r.final.lookups.reverse)

end Matcher

end ValueGrammar
