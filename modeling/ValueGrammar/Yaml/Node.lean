import ValueGrammar.Yaml.Tag

/-!
# `ValueGrammar.Yaml.Node` — the content of a document

## Contents
- `Node`: scalars, sequences, mappings, and names for nodes that came before.
- `Node.line`, `Node.identity`, `Node.isMerge`, `Node.isNull`.
-/

namespace ValueGrammar.Yaml

/-- A collection that a name stands for while it is read. -/
structure Opened where
  line : Nat
  tag : Tag
  isMapping : Bool
  deriving Repr, DecidableEq, Inhabited

/-- The content of a document, or a part of it. Every node has the line it starts in, counted
from 1. -/
inductive Node where
  | scalar (line : Nat) (tag : Tag) (text : String)
  | sequence (line : Nat) (tag : Tag) (items : List Node)
  | mapping (line : Nat) (tag : Tag) (entries : List (Node × Node))
  /-- another name for a node -/
  | alias (line : Nat) (name : String) (target : Node)
  /-- a name for a collection that this node is a part of -/
  | cycle (line : Nat) (name : String) (collection : Opened)
  deriving Repr, Inhabited

namespace Node

/-- The node of a place where nothing is written. -/
def empty (line : Nat) : Node := .scalar line .null ""

/-- The line a node starts in. -/
def line : Node → Nat
  | .scalar line .. => line
  | .sequence line .. => line
  | .mapping line .. => line
  | .alias line .. => line
  | .cycle line .. => line

/-- The kinds of nodes. -/
inductive Kind where
  | scalar
  | sequence
  | mapping
  | alias
  deriving Repr, DecidableEq, Inhabited

/-- What keys may not have in common: their kind and their text. A collection has none, and that of
an alias is its name. -/
def identity : Node → Kind × String
  | .scalar _ _ text => (.scalar, text)
  | .sequence .. => (.sequence, "")
  | .mapping .. => (.mapping, "")
  | .alias _ name _ => (.alias, name)
  | .cycle _ name _ => (.alias, name)

/-- Is it the key under which a mapping takes in the entries of others? -/
def isMerge : Node → Bool
  | .scalar _ .merge "<<" => true
  | _ => false

/-- The node that a name stands for. -/
def target : Node → Node
  | .alias _ _ n => n
  | n => n

/-- Does a node stand for nothing? -/
def isNull (n : Node) : Bool :=
  match n.target with
  | .scalar _ tag _ => tag = .null
  | .sequence _ tag _ => tag = .null
  | .mapping _ tag _ => tag = .null
  | _ => false

end Node

end ValueGrammar.Yaml
