import ValueGrammar.State

/-!
# `ValueGrammar.State.Dump` — showing states

## Contents
- `State.summary`: a state with the names of the states it leads to.
- `State.dump`: everything reachable from a state. Where a loop leads back to a state around it,
  `Up(n)` counts how many conditionals and groups out that state is.
-/

namespace ValueGrammar

/-- A leaf and its operand. -/
def Leaf.text : Leaf → String
  | .keyword name => "Keyword(" ++ name ++ ")"
  | .atKeyword name => "AtKeyword(" ++ name ++ ")"
  | .function name => "Function(" ++ name ++ ")"
  | .token value => "Token(" ++ value ++ ")"
  | .string value _ => "String(" ++ value ++ ")"
  | .comma => "Comma"
  | .generic name _ => "Generic(" ++ name ++ ")"

namespace State

/-- A reference and its name. -/
def callText (r : Reference) : String :=
  match r.kind with
  | .type => "Type(" ++ r.name ++ ")"
  | .property => "Property(" ++ r.name ++ ")"

/-- The name of a state as it is shown inside another one. -/
def shortName : State → String
  | .accept => "Match"
  | .reject => "Mismatch"
  | .nonEmpty => "DisallowEmpty"
  | .cond _ _ _ => "If"
  | .loop _ _ => "If"
  | .again _ _ => "If"
  | .enum _ => "Enum"
  | .once _ _ _ => "MatchOnce"
  | .leaf l _ => l.text
  | .call r _ _ => callText r

/-- Keeps a table sorted by its keys when an entry is added. -/
def insertByKey {α : Type} (e : String × α) : List (String × α) → List (String × α)
  | [] => [e]
  | d :: ds => if e.1 < d.1 then e :: d :: ds else d :: insertByKey e ds

/-- A table sorted by its keys. -/
def sortByKey {α : Type} (table : List (String × α)) : List (String × α) :=
  table.foldr insertByKey []

/-- A state with the names of the states it leads to. -/
def summary (s : State) : String :=
  match s with
  | .enum table => "Enum(" ++ String.intercalate ", " ((sortByKey table).map (·.1)) ++ ")"
  | .once terms all _ =>
    "MatchOnce[" ++ (if all then Combinator.all else Combinator.any).text ++ "](" ++
      String.intercalate ", " (terms.map shortName) ++ ")"
  | _ =>
    match s.branch? with
    | some (test, next, other) =>
      "If(" ++ test.shortName ++ ", " ++ next.shortName ++ ", " ++ other.shortName ++ ")"
    | none => s.shortName

/-- A conditional written out. -/
def ifText (test next other : String) : String :=
  "If(" ++ test ++ ", " ++ next ++ ", " ++ other ++ ")"

/-- A leaf and the grammar it was made for. -/
def leafText (l : Leaf) (node : Grammar) : String := l.text ++ "~" ++ node.text

mutual

/-- Everything reachable from a state. -/
def dump : State → String
  | .accept => "Match"
  | .reject => "Mismatch"
  | .nonEmpty => "DisallowEmpty"
  | .cond test next other => ifText test.dump next.dump other.dump
  | .loop body sep =>
    let back := match sep with
      | none => "Up(2)"
      | some m => ifText (leafText .comma m) "Up(3)" "Mismatch"
    ifText body.dump (ifText "Match" "Match" back) "Mismatch"
  | .again body sep =>
    let forth := match sep with
      | none => ifText body.dump "Up(2)" "Mismatch"
      | some m => ifText (leafText .comma m) (ifText body.dump "Up(3)" "Mismatch") "Mismatch"
    ifText "Match" "Match" forth
  | .enum table =>
    let entries := (sortByKey (dumpTable table)).map fun e => e.1 ++ ": " ++ e.2
    "Enum(" ++ String.intercalate ", " entries ++ ")"
  | .once terms all _ =>
    "MatchOnce[" ++ toString all ++ "](" ++ String.intercalate ", " (dumpAll terms) ++ ")"
  | .leaf l node => leafText l node
  | .call r _ node => callText r ++ "~" ++ node.text

/-- The dumps of several states. -/
def dumpAll : List State → List String
  | [] => []
  | s :: ss => s.dump :: dumpAll ss

/-- The dumps of the states of a table. -/
def dumpTable : List (String × State) → List (String × String)
  | [] => []
  | (key, s) :: rest => (key, s.dump) :: dumpTable rest

end

end State

end ValueGrammar
