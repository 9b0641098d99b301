import ValueGrammar.Grammar
import ValueGrammar.Outline
import ValueGrammar.Token

/-!
# `ValueGrammar.Trace` — how the tokens of a value were matched

The trace of a match records each token with the node of the grammar it matched, inside the scopes
of the references that led there.

## Contents
- `Entry`: one record, `Trace` a list of them with the latest first.
- `TraceItem`, `Trace.items`, `TraceItem.format`: the trace as a flat list.
- `TraceTree`, `Trace.tree`, `TraceTree.pretty`: the trace as a tree of scopes.
-/

namespace ValueGrammar

/-- One record of a trace. A token carries its place among the significant tokens. -/
inductive Entry where
  | token (node : Grammar) (index : Nat) (token : Token)
  | opened (node : Grammar)
  | closed (node : Grammar)
  deriving Inhabited

/-- The records made so far, the latest first. -/
abbrev Trace : Type := List Entry

namespace Trace

/-- The last token recorded, with its place. -/
def lastToken? : Trace → Option (Nat × Token)
  | [] => none
  | .token _ i t :: _ => some (i, t)
  | .opened _ :: rest => lastToken? rest
  | .closed _ :: rest => lastToken? rest

/-- The place of the last token recorded. -/
def lastIndex? (tr : Trace) : Option Nat := tr.lastToken?.map (·.1)

end Trace

/-! ## The flat list -/

/-- What an item of a flat trace stands for. An item made by hand may carry a number that stands for
none of the three. -/
inductive TraceKind where
  | token
  | opened
  | closed
  | other (code : Int)
  deriving Repr, DecidableEq, Inhabited

namespace TraceKind

/-- The name of a kind. -/
def text : TraceKind → String
  | .token => "Token"
  | .opened => "OpenSyntax"
  | .closed => "CloseSyntax"
  | .other code => "TraceKind(" ++ toString code ++ ")"

/-- The kind with the given number. -/
def ofCode (code : Int) : TraceKind :=
  if code == 0 then .token
  else if code == 1 then .opened
  else if code == 2 then .closed
  else .other code

end TraceKind

/-- An item of a flat trace. -/
structure TraceItem where
  kind : TraceKind
  node : Option Grammar
  token : String := ""
  origin : Option String := none
  deriving Inhabited

/-- The text of a node, if there is one. -/
def nodeText : Option Grammar → String
  | some g => g.text
  | none => "<nil>"

namespace TraceItem

/-- A token is shown by its value, a scope by its grammar. -/
def text (i : TraceItem) : String :=
  match i.kind with
  | .token => Text.quote i.token
  | kind => kind.text ++ "(" ++ nodeText i.node ++ ")"

/-- The values of the token items. -/
def tokens (items : List TraceItem) : List String :=
  items.filterMap fun i => if i.kind = .token then some i.token else none

/-- One item a line, those inside a scope further to the right. -/
def formatFrom (depth : Int) : List TraceItem → String
  | [] => ""
  | i :: rest =>
    let here := if i.kind = .closed then depth - 1 else depth
    let after := if i.kind = .opened then here + 1 else here
    Text.times here.toNat "  " ++ i.text ++ "\n" ++ formatFrom after rest

/-- One item a line. -/
def format (items : List TraceItem) : String := formatFrom 0 items

end TraceItem

/-- The item of a record. -/
def Entry.item : Entry → TraceItem
  | .token node _ t => { kind := .token, node := some node, token := t.value, origin := t.origin }
  | .opened node => { kind := .opened, node := some node }
  | .closed node => { kind := .closed, node := some node }

/-- The trace as a flat list, in the order it was recorded. -/
def Trace.items (tr : Trace) : List TraceItem := tr.reverse.map Entry.item

/-! ## The tree -/

/-- A trace as a tree: scopes with what was matched inside them, and tokens. -/
inductive TraceTree where
  | scope (node : Grammar) (children : List TraceTree)
  | token (node : Grammar) (token : String) (origin : Option String)
  deriving Inhabited

namespace TraceTree

/-- A scope being built: its node, and its children with the latest first. -/
structure Open where
  node : Grammar
  children : List TraceTree
  deriving Inhabited

namespace Open

/-- The scope with one more child. -/
def add (o : Open) (t : TraceTree) : Open := { o with children := t :: o.children }

/-- The finished scope. -/
def done (o : Open) : TraceTree := .scope o.node o.children.reverse

end Open

/-- Adds a record to the innermost of the open scopes, of which `host` is the first. -/
def record (host : Open) (outer : List Open) : Entry → Open × List Open
  | .token node _ t => (host.add (.token node t.value t.origin), outer)
  | .opened node => (⟨node, []⟩, host :: outer)
  | .closed _ =>
    match outer with
    | parent :: rest => (parent.add host.done, rest)
    | [] => (host, [])

/-- Closes all the scopes still open. -/
def finish (host : Open) : List Open → TraceTree
  | [] => host.done
  | parent :: rest => finish (parent.add host.done) rest

/-- Adds records in the order they were made, then closes what is open. -/
def build (host : Open) (outer : List Open) : List Entry → TraceTree
  | [] => finish host outer
  | e :: rest =>
    let (host', outer') := record host outer e
    build host' outer' rest

mutual

/-- The values of the tokens in a tree, in order. -/
def tokens : TraceTree → List String
  | .scope _ children => tokensAll children
  | .token _ value _ => [value]

/-- The values of the tokens in several trees. -/
def tokensAll : List TraceTree → List String
  | [] => []
  | t :: ts => t.tokens ++ tokensAll ts

end

mutual

/-- The tree with a label for every scope and token. -/
def outline (theme : Theme) : TraceTree → Outline
  | .scope node children => .node (paint theme.reference node.text) (outlines theme children)
  | .token node value _ => .node (paint theme.token (Text.quote value) ++ " " ++ node.text) []

/-- The trees of several scopes and tokens. -/
def outlines (theme : Theme) : List TraceTree → List Outline
  | [] => []
  | t :: ts => outline theme t :: outlines theme ts

end

/-- The tree drawn with branches. -/
def pretty (theme : Theme) (t : TraceTree) : String := (t.outline theme).draw

end TraceTree

/-- The trace as a tree below the grammar that was matched. -/
def Trace.tree (tr : Trace) (root : Grammar) : TraceTree :=
  TraceTree.build ⟨root, []⟩ [] tr.reverse

end ValueGrammar
