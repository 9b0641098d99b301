import ValueGrammar.State

/-!
# `ValueGrammar.State.Compile` — compiling grammars to states

A group of terms in a row becomes a chain of conditionals, alternatives become conditionals that
fall through, and a multiplier is written out as often as it allows. Alternatives that are keywords
or functions can be folded into one table that is looked up by the value of the token.

## Contents
- `CompileError`: what cannot be compiled.
- `Compiler`: the choices left open, `Compiler.standard`.
- `Compiler.alternatives`, `Compiler.repeated`, `Compiler.grouped`: one construct each.
- `Compiler.compile`, `Graph.compile`.
-/

namespace ValueGrammar

/-- Why a grammar cannot be compiled. -/
inductive CompileError where
  | tooManyTerms (group : String) (count : Nat) (combinator : Combinator)
  | unknownCombinator (combinator : Combinator)
  deriving Repr, DecidableEq, Inhabited

/-- How many terms in any order a group may have. -/
def maxOnceTerms : Nat := 64

namespace CompileError

/-- The message for people. -/
def text : CompileError → String
  | .tooManyTerms group count c =>
    "group `" ++ group ++ "` has " ++ toString count ++ " terms, the `" ++ c.text ++
      "` combinator supports up to " ++ toString maxOnceTerms
  | .unknownCombinator c => "unknown combinator: " ++ c.text

end CompileError

/-- What a compiler is free to choose: whether alternatives are folded into tables, and how a
conditional is built. -/
structure Compiler where
  foldEnums : Bool
  branch : State → State → State → State

namespace Compiler

/-- The compiler that leaves out conditionals that change nothing. -/
def standard (foldEnums : Bool) : Compiler := ⟨foldEnums, State.branch⟩

/-- The name a type is looked up by if its values are functions, without the closing
parenthesis. -/
def functionTypeName? (name : String) : Option String :=
  match name.toList.reverse with
  | ')' :: '(' :: r => some (String.ofList ('(' :: r).reverse)
  | _ => none

/-- The key an alternative has in a table, if it can be in one. -/
def enumKey? : Grammar → Option String
  | .keyword name => some (Text.lower name)
  | .function name => some (Text.lower name ++ "(")
  | .type name _ => (functionTypeName? name).map Text.lower
  | _ => none

/-- The alternatives compiled so far: what comes after the open table, and the table. -/
structure Alternatives where
  rest : State
  table : Option (List (String × State))

namespace Alternatives

/-- The alternatives as one state. -/
def close (c : Compiler) (a : Alternatives) : State :=
  match a.table with
  | some t => c.branch (.enum t) .accept a.rest
  | none => a.rest

/-- Puts an alternative of its own in front. -/
def addTerm (c : Compiler) (a : Alternatives) (term : State) : Alternatives :=
  ⟨c.branch term .accept (a.close c), none⟩

/-- Puts an alternative in front that may go into a table, where `more` tells whether the one
before it may do so too. A key that is taken closes the table. -/
def addKeyed (c : Compiler) (a : Alternatives) (more : Bool) (key : String) (term : State) :
    Alternatives :=
  let table := match a.table with
    | some t => some t
    | none => if more then some [] else none
  match table with
  | some t => if (t.lookup key).isSome then a.addTerm c term else ⟨a.rest, some ((key, term) :: t)⟩
  | none => a.addTerm c term

end Alternatives

/-- The key of an alternative, if tables are wanted. -/
def keyOf (c : Compiler) (node : Grammar) : Option String :=
  if c.foldEnums then enumKey? node else none

/-- Adds alternatives from the last to the first. `before` is the node in front of
the given ones. -/
def addAlternatives (c : Compiler) (before : Option Grammar) :
    List (Grammar × State) → Alternatives
  | [] => ⟨.reject, none⟩
  | (node, term) :: rest =>
    let a := addAlternatives c (some node) rest
    match c.keyOf node with
    | some key => a.addKeyed c ((before.bind c.keyOf).isSome) key term
    | none => a.addTerm c term

/-- The terms of which exactly one has to match; the first that does wins. -/
def alternatives (c : Compiler) (terms : List (Grammar × State)) : State :=
  (addAlternatives c none terms).close c

/-- The terms of a group joined by its combinator. `node` is the group. -/
def grouped (c : Compiler) (node : Grammar) (combinator : Combinator)
    (terms : List (Grammar × State)) : Except CompileError State :=
  let states := terms.map (·.2)
  let inAnyOrder (all : Bool) : Except CompileError State :=
    match states with
    | [term] => .ok term
    | _ =>
      if maxOnceTerms < states.length then
        .error (.tooManyTerms node.text states.length combinator)
      else .ok (.once states all node)
  match combinator with
  | .juxtapose => .ok (states.foldr (fun term rest => c.branch term rest .reject) .accept)
  | .one => .ok (c.alternatives terms)
  | .all => inAnyOrder true
  | .any => inAnyOrder false
  | .other _ => .error (.unknownCombinator combinator)

/-- Puts a comma in front of what comes next, if the multiplier `node` separates by commas and
anything comes next. -/
def afterComma (c : Compiler) (node : Grammar) (separated : Bool) (next : State) : State :=
  if separated && !next.isAccept then c.branch (.leaf .comma node) next .reject else next

/-- Optional repetitions of a term, nested in each other. -/
def optionally (c : Compiler) (node : Grammar) (separated : Bool) (term : State) : Nat → State
  | 0 => .accept
  | n + 1 =>
    let rest := afterComma c node separated (optionally c node separated term n)
    c.branch term (c.branch .accept .accept rest) .reject

/-- Mandatory repetitions of a term before `next`. -/
def mandatory (c : Compiler) (node : Grammar) (separated : Bool) (term : State) (next : State) :
    Nat → State
  | 0 => next
  | n + 1 => c.branch term (afterComma c node separated (mandatory c node separated term next n))
      .reject

/-- The repetitions of a term. `node` is the multiplier. Where there is no upper limit each
repetition has to take a token, or there would be no end of them. -/
def repeated (c : Compiler) (node : Grammar) (min : Int) (max : Option Int) (separated : Bool)
    (term : State) : State :=
  let (body, tail) :=
    match max with
    | none =>
      let body := c.branch term .nonEmpty .reject
      (body, State.loop body (if separated then some node else none))
    | some hi => (term, optionally c node separated term (hi - Max.max min 1 + 1).toNat)
  if min == 0 then c.branch .accept .accept tail
  else mandatory c node separated body tail (min - 1).toNat

/-- A string literal; one with a single character between the quotes is compared as a token. -/
def stringLeaf (value : String) : Leaf :=
  match value.toList with
  | [_, c, _] => .token c.toString
  | _ => .string (Grammar.unquoted value) (Grammar.unquotedSize value)

mutual

/-- The state of a grammar. -/
def compile (c : Compiler) : Grammar → Except CompileError State
  | .group combinator terms bracketed nonEmpty => do
    let node := Grammar.group combinator terms bracketed nonEmpty
    let state ← grouped c node combinator (← compileAll c terms)
    return if nonEmpty then c.branch state .nonEmpty .reject else state
  | .multiplier t min max separated => do
    let node := Grammar.multiplier t min max separated
    return repeated c node min max separated (← compile c t)
  | .keyword name => .ok (.leaf (.keyword (Text.lower name)) (.keyword name))
  | .atKeyword name => .ok (.leaf (.atKeyword ("@" ++ Text.lower name)) (.atKeyword name))
  | .function name => .ok (.leaf (.function (Text.lower name ++ "(")) (.function name))
  | .type name range => .ok (.call ⟨.type, name⟩ range (.type name range))
  | .property name => .ok (.call ⟨.property, name⟩ none (.property name))
  | .token value => .ok (.leaf (.token value) (.token value))
  | .string value => .ok (.leaf (stringLeaf value) (.string value))
  | .comma => .ok (.leaf .comma .comma)

/-- The states of several grammars, each with its grammar. -/
def compileAll (c : Compiler) : List Grammar → Except CompileError (List (Grammar × State))
  | [] => .ok []
  | t :: ts => do
    let s ← compile c t
    let rest ← compileAll c ts
    return (t, s) :: rest

end

end Compiler

namespace Graph

/-- Compiles a grammar; its source is the given text. -/
def compile (c : Compiler) (source : String) (g : Grammar) : Except CompileError Graph := do
  let root ← c.compile g
  return ⟨source, g, root⟩

end Graph

end ValueGrammar
