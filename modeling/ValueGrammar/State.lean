import ValueGrammar.Grammar.Walk
import ValueGrammar.Recognizer

/-!
# `ValueGrammar.State` — the states a grammar is compiled to

A state says what to look for in the tokens next, and how to go on when it was found or not. States
form a tree, but for the repetitions of a multiplier without an upper limit: these are the two
states `loop` and `again`, which lead to each other. Both are conditionals, and `State.branch?`
shows what they unfold to, so that no cyclic structure is needed.

## Contents
- `Leaf`: what a state compares tokens with.
- `State`, `State.branch?`.
- `State.branch`: a conditional without the parts that change nothing.
- `Graph`: the compiled form of a grammar.
-/

namespace ValueGrammar

/-- What is compared with the tokens ahead. -/
inductive Leaf where
  | keyword (name : String)
  | atKeyword (name : String)
  | function (name : String)
  | token (value : String)
  /-- tokens that together spell `value`, of which no more are read than hold `size` bytes -/
  | string (value : String) (size : Nat)
  | comma
  | generic (name : String) (count : Recognition)
  deriving Inhabited

/-- A state of a compiled grammar. -/
inductive State where
  /-- the path walked so far succeeded -/
  | accept
  /-- the path walked so far failed -/
  | reject
  /-- succeeds if a token was taken since it was put off -/
  | nonEmpty
  /-- `test`, then `next` if it succeeds and `other` if anything of that fails -/
  | cond (test next other : State)
  /-- one or more repetitions of `body`; with a comma between them if there is a `separator`, which
  is the grammar the comma belongs to -/
  | loop (body : State) (separator : Option Grammar)
  /-- no further repetition of `body`, or one or more -/
  | again (body : State) (separator : Option Grammar)
  /-- the state found under the lower case value of the token -/
  | enum (table : List (String × State))
  /-- each of the terms at most once, in any order: every one of them if `all`, else at least one -/
  | once (terms : List State) (all : Bool) (node : Grammar)
  /-- a comparison with the tokens ahead, made for a node of the grammar -/
  | leaf (leaf : Leaf) (node : Grammar)
  /-- the grammar a reference stands for -/
  | call (reference : Reference) (range : Option Range) (node : Grammar)
  deriving Inhabited

namespace State

/-- The conditional a state stands for, if it is one. -/
def branch? : State → Option (State × State × State)
  | .cond test next other => some (test, next, other)
  | .loop body sep => some (body, .again body sep, .reject)
  | .again body none => some (.accept, .accept, .loop body none)
  | .again body (some m) =>
    some (.accept, .accept, .cond (.leaf .comma m) (.loop body (some m)) .reject)
  | _ => none

/-- Is it the state that succeeds at once? -/
def isAccept : State → Bool
  | .accept => true
  | _ => false

/-- Is it the state that fails at once? -/
def isReject : State → Bool
  | .reject => true
  | _ => false

/-- A conditional without the parts that do not change what matches: one that only passes the
outcome of its test on is the test, one that succeeds whatever happens is `accept`, and a test that
is itself a conditional without an alternative is merged into this one. -/
def branch (test next other : State) : State :=
  if next.isAccept && other.isReject then test
  else if test.isAccept && next.isAccept && other.isAccept then test
  else if next.isAccept then
    match test.branch? with
    | some (test', next', other') =>
      if other'.isReject then .cond test' next' other else .cond test next other
    | none => .cond test next other
  else .cond test next other

end State

/-- The compiled form of a grammar. -/
structure Graph where
  /-- the text the grammar was read from -/
  source : String
  grammar : Grammar
  root : State
  deriving Inhabited

namespace Graph

/-- A type recognized by looking at tokens instead of by a grammar. -/
def ofRecognition (name : String) (count : Recognition) : Graph :=
  let node := Grammar.type name none
  ⟨node.text, node, .leaf (.generic name count) node⟩

/-- A short name of a graph. -/
def text (g : Graph) : String := "MatchGraph(" ++ g.source ++ ")"

end Graph

end ValueGrammar
