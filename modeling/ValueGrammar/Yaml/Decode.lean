import ValueGrammar.Text.Quoted
import ValueGrammar.Yaml.Binary
import ValueGrammar.Yaml.Node
import ValueGrammar.Yaml.Problem

/-!
# `ValueGrammar.Yaml.Decode` — nodes as texts and mappings from texts

A node that does not have the shape that is asked for is a fault; faults are gathered. Keys of a
mapping have to differ, those that stand for nothing are passed over, and a mapping takes in the
entries of others whose keys it does not have.

## Contents
- `Shape`, `Fault`, `Fault.text`.
- `Decoding`, `Decode`: functions that gather faults and may fail.
- `Decode.text?`: a node as a text.
- `Decode.foldEntries`: goes through the entries of a mapping, with those it takes in.
- `Decode.strings`: a node as a mapping from texts to texts.
-/

namespace ValueGrammar.Yaml

/-- What is made of a node. -/
inductive Shape where
  | text
  | strings
  /-- a record with a name -/
  | record (name : String)
  deriving Repr, DecidableEq, Inhabited

/-- The name of a shape. -/
def Shape.name : Shape → String
  | .text => "string"
  | .strings => "map[string]string"
  | .record name => name

/-- How a node does not have the shape that is asked for. -/
inductive Fault where
  /-- a node is of another kind; collections are not quoted -/
  | shape (line : Nat) (tag : Tag) (text : String) (shape : Shape)
  | duplicateKey (line : Nat) (key : String) (before : Nat)
  | repeatedField (line : Nat) (field : String) (shape : Shape)
  | unknownField (line : Nat) (field : String) (shape : Shape)
  deriving Repr, DecidableEq, Inhabited

namespace Fault

/-- A text as it is quoted in messages: long ones are cut, by bytes. -/
def excerpt (text : String) : String :=
  if 10 < text.utf8ByteSize then
    Text.ofBytesLossy (text.toUTF8.toList.take 7) ++ "..."
  else text

/-- The message for people. -/
def text : Fault → String
  | .shape line tag text wanted =>
    let quoted := if tag = .seq ∨ tag = .map then text else " `" ++ excerpt text ++ "`"
    "line " ++ toString line ++ ": cannot unmarshal " ++ tag.name ++ quoted ++ " into " ++
      wanted.name
  | .duplicateKey line key before =>
    "line " ++ toString line ++ ": mapping key " ++ Text.quote key ++ " already defined at line " ++
      toString before
  | .repeatedField line field wanted =>
    "line " ++ toString line ++ ": field " ++ field ++ " already set in type " ++ wanted.name
  | .unknownField line field wanted =>
    "line " ++ toString line ++ ": field " ++ field ++ " not found in type " ++ wanted.name

end Fault

/-- The faults so far, and how many nodes have been looked at. -/
structure Decoding where
  faults : List Fault := []
  /-- how many nodes have been looked at, and how many of them through an alias -/
  nodes : Nat := 0
  aliased : Nat := 0
  /-- through how many aliases nodes are being looked at -/
  depth : Nat := 0
  /-- the keys that entries which are taken in may not have, while they are -/
  taken : Option (List String) := none
  deriving Repr, Inhabited

/-- A function that gathers faults and may fail. -/
abbrev Decode : Type → Type := StateT Decoding (Except Problem)

namespace Decode

/-- Adds a fault. -/
def fault (f : Fault) : Decode Unit := modify fun d => { d with faults := d.faults ++ [f] }

/-- Fails at once. -/
def fail {α : Type} (cause : Cause) : Decode α := throw (.general cause)

/-- Do aliases make up too many of the nodes? The more nodes there are, the fewer of them may be
looked at through aliases: 99 of 100 at first, and 10 of 100 in the end. -/
def excessive (d : Decoding) : Bool :=
  let low := 400000
  let range := 3600000
  let extra := min (d.nodes - low) range
  100 < d.aliased && 1000 < d.nodes && d.nodes * (99 * range - 89 * extra) < d.aliased * 100 * range

/-- Looks at a node. -/
def visit : Decode Unit := do
  modify fun d =>
    { d with nodes := d.nodes + 1, aliased := d.aliased + (if d.depth = 0 then 0 else 1) }
  if excessive (← get) then fail .excessiveAliases

/-- Looks at nodes through an alias. -/
def through {α : Type} (f : Decode α) : Decode α := do
  modify fun d => { d with depth := d.depth + 1 }
  let a ← f
  modify fun d => { d with depth := d.depth - 1 }
  return a

/-- The text of a scalar, or nothing if it stands for nothing. -/
def scalar (tag : Tag) (text : String) : Decode (Option String) := do
  if !tag.admits text then fail (.otherType (Tag.ofPlain text).name text tag.name)
  match tag with
  | .null => return none
  | .binary =>
    match base64Text? text with
    | some t => return some t
    | none => fail .base64
  | _ => return some text

/-- The keys of a mapping that are there twice, each with the ones before it. -/
def duplicates : List Node → List Fault
  | [] => []
  | k :: ks =>
    ((ks.filter fun l => l.identity = k.identity).map fun l =>
      Fault.duplicateKey l.line l.identity.2 k.line) ++ duplicates ks

/-- The keys of a mapping have to differ; says whether they do. -/
def distinct (entries : List (Node × Node)) : Decode Bool := do
  let found := duplicates (entries.map Prod.fst)
  found.forM fault
  return found.isEmpty

/-- A node as a text, or nothing if it stands for nothing. -/
def text? : Node → Decode (Option String)
  | .scalar _ tag text => do
    visit
    scalar tag text
  | .sequence line tag _ => do
    visit
    fault (.shape line tag "" .text)
    return none
  | .mapping line tag entries => do
    visit
    if ← distinct entries then fault (.shape line tag "" .text)
    return none
  | .alias _ _ target => do
    visit
    through (text? target)
  | .cycle _ _ c => do
    fault (.shape c.line c.tag "" .text)
    return none

/-- An entry of a mapping: the line of its key, its key, its value, and whether it is one of the
mapping's own. -/
structure Entry where
  line : Nat
  key : String
  value : Node
  own : Bool

/-- A key that keeps others out that are taken in: it has to be a text and nothing else. -/
def textKey? (key : Node) : Decode (Option String) := do
  match key.target with
  | .scalar _ tag _ =>
    let text ← text? key
    return if [.bool, .int, .float, .timestamp].contains tag then none else text
  | _ => return none

/-- Goes through an entry, unless its key is one of those that are kept out. -/
def foldEntry {σ : Type} (f : σ → Entry → Decode σ) (own : Bool)
    (acc : σ × Option (List String)) (e : Node × Node) : Decode (σ × Option (List String)) := do
  if e.1.isMerge then return acc
  match ← text? e.1, acc.2 with
  | none, _ => return acc
  | some key, none => return (← f acc.1 ⟨e.1.line, key, e.2, own⟩, none)
  | some key, some taken =>
    if taken.contains key then return acc
    else return (← f acc.1 ⟨e.1.line, key, e.2, own⟩, some (key :: taken))

/-- Goes through the entries of a mapping, without those it takes in. -/
def foldOwn {σ : Type} (f : σ → Entry → Decode σ) (own : Bool) (entries : List (Node × Node))
    (s : σ) : Decode σ := do
  let taken := (← get).taken
  modify fun d => { d with taken := none }
  let (s, taken) ← entries.foldlM (foldEntry f own) (s, taken)
  modify fun d => { d with taken }
  return s

/-- Does something with the keys of a mapping kept out. -/
def keepingOut {σ : Type} (entries : List (Node × Node)) (f : Decode σ) : Decode σ := do
  match (← get).taken with
  | some _ => f
  | none =>
    let keys ← entries.mapM fun e => textKey? e.1
    modify fun d => { d with taken := some (keys.filterMap id) }
    let s ← f
    modify fun d => { d with taken := none }
    return s

mutual

/-- Goes through the entries of a mapping, and then through those it takes in. -/
def foldEntries {σ : Type} (f : σ → Entry → Decode σ) (own : Bool) : Node → σ → Decode σ
  | .mapping _ _ entries, s => do
    visit
    if ← distinct entries then
      foldMerges f entries entries (← foldOwn f own entries s)
    else return s
  | .alias _ _ target, s => do
    visit
    through (foldEntries f own target s)
  | .cycle _ name c, _ => fail (if c.isMapping then .containsItself name else .mergeValue)
  | _, _ => fail .mergeValue

/-- Goes through the entries that a mapping takes in. -/
def foldMerges {σ : Type} (f : σ → Entry → Decode σ) (all : List (Node × Node)) :
    List (Node × Node) → σ → Decode σ
  | [], s => pure s
  | (key, .sequence _ _ items) :: rest, s => do
    let s ← if key.isMerge then keepingOut all (foldItems f items s) else pure s
    foldMerges f all rest s
  | (key, value) :: rest, s => do
    let s ← if key.isMerge then keepingOut all (foldEntries f false value s) else pure s
    foldMerges f all rest s

/-- Goes through the entries of mappings. -/
def foldItems {σ : Type} (f : σ → Entry → Decode σ) : List Node → σ → Decode σ
  | [], s => pure s
  | n :: rest, s => do foldItems f rest (← foldEntries f false n s)

end

/-- A node as something that is made of the entries of a mapping; of nothing there are none. -/
def entriesOf {σ : Type} (shape : Shape) (f : σ → Entry → Decode σ) (s : σ) : Node → Decode σ
  | .scalar line tag text => do
    visit
    if (← scalar tag text).isSome then fault (.shape line tag text shape)
    return s
  | .sequence line tag _ => do
    visit
    fault (.shape line tag "" shape)
    return s
  | .alias _ _ target => do
    visit
    through (entriesOf shape f s target)
  | n => foldEntries f true n s

/-- Texts that texts are mapped to, in the order they came in. -/
abbrev Strings : Type := List (String × String)

/-- Maps a text to another one. -/
def put (key value : String) : Strings → Strings
  | [] => [(key, value)]
  | e :: rest => if e.1 = key then (key, value) :: rest else e :: put key value rest

/-- Adds an entry. A value that stands for nothing is the empty text, but if it is taken in it does
not replace another one. -/
def putEntry (m : Strings) (e : Entry) : Decode Strings := do
  match ← text? e.value with
  | some value => return put e.key value m
  | none =>
    if e.value.isNull && (e.own || (m.lookup e.key).isNone) then return put e.key "" m
    else return m

/-- A node as a mapping from texts to texts. -/
def strings (n : Node) : Decode Strings := entriesOf .strings putEntry [] n

end Decode

end ValueGrammar.Yaml
