import ValueGrammar.Yaml.Node
import ValueGrammar.Yaml.TokenStream.Next

/-!
# `ValueGrammar.Yaml.Node.Read` — reading the content of a document

Tokens become nodes. Only the first document of a text is read, and what follows its content only
as far as tokens are read ahead.

## Contents
- `Reading`, `Read`: functions of the tokens left and of the names given so far.
- `Read.properties`: the anchor and the tag in front of a node.
- `Read.blockSequence`, `Read.blockMapping`, `Read.flowSequence`, `Read.flowMapping`: collections,
  given how to read what is in them.
- `Read.node`, `Read.document`.
- `Node.ofSource`.
-/

namespace ValueGrammar.Yaml

/-- What a name stands for. -/
inductive Anchor where
  /-- a collection whose end has not been read -/
  | opened (id : Nat) (collection : Opened)
  | closed (node : Node)
  deriving Inhabited

/-- The tokens left, and what names stand for. -/
structure Reading where
  tokens : TokenStream
  /-- what the handles of tags stand for -/
  handles : List (String × String) := []
  anchors : List (String × Anchor) := []
  /-- how many collections with a name there are -/
  opened : Nat := 0

/-- A function of the tokens left that may fail. -/
abbrev Read : Type → Type := StateT Reading (Except Problem)

namespace Read

/-- Runs a function of the token stream. -/
def scan {α : Type} (f : Scan α) : Read α := do
  let r ← get
  match f r.tokens with
  | .ok (a, tokens) =>
    set { r with tokens }
    return a
  | .error p => throw p

/-- The next token. -/
def peek : Read Token := scan Scan.peekToken

/-- Takes the next token. -/
def drop : Read Unit := scan Scan.dropToken

/-- Takes a token and looks at the one after it. -/
def advance : Read Token := do
  drop
  peek

/-- Fails because of something that started in a line. -/
def fail {α : Type} (cause : Cause) (context found : Nat) : Read α :=
  throw (.ofStructure cause context found)

/-- Repeats a step that takes a token each time until it is done. -/
def loop {σ : Type} (start : σ) (step : σ → Read (ForInStep σ)) : Read σ := do
  repeatWithin step (← get).tokens.bound start

/-- The node of a place in a line where nothing is written. -/
def nothing (t : Token) : Node := .empty (t.line + 1)

/-! ## Names -/

/-- Gives a node a name, if it has one. -/
def register (name : Option String) (node : Node) : Read Node := do
  match name with
  | some name => modify fun r => { r with anchors := (name, .closed node) :: r.anchors }
  | none => pure ()
  return node

/-- Gives a collection a name while it is read. -/
def within (name : Option String) (collection : Opened) (content : Read Node) : Read Node := do
  match name with
  | none => content
  | some name =>
    let id := (← get).opened
    modify fun r =>
      { r with opened := id + 1, anchors := (name, .opened id collection) :: r.anchors }
    let node ← content
    let close : String × Anchor → String × Anchor
      | (n, .opened i c) => if i = id then (n, .closed node) else (n, .opened i c)
      | a => a
    modify fun r => { r with anchors := r.anchors.map close }
    return node

/-- What a name stands for. -/
def aliased (name : String) (line : Nat) : Read Node := do
  match (← get).anchors.lookup name with
  | some (.closed node) => return .alias line name node
  | some (.opened _ collection) => return .cycle line name collection
  | none => throw (.general (.unknownAnchor name))

/-- What stands in front of a node, and the line it starts in. -/
structure Properties where
  line : Nat
  anchor : Option String := none
  tag : Option String := none
  deriving Repr, DecidableEq, Inhabited

/-- The tag that a handle and a suffix make. -/
def tagName (handle suffix : String) (context found : Nat) : Read String := do
  if handle.isEmpty then return suffix
  match (← get).handles.lookup handle with
  | some uri => return uri ++ suffix
  | none => fail .undefinedTag context found

/-- The anchor and the tag in front of a node, in either order, and the token after them. -/
def properties : Read (Properties × Token) := do
  let t ← peek
  match t.lexeme with
  | .anchor name =>
    let u ← advance
    match u.lexeme with
    | .tag handle suffix =>
      let v ← advance
      return (⟨t.line, some name, some (← tagName handle suffix t.line u.line)⟩, v)
    | _ => return (⟨t.line, some name, none⟩, u)
  | .tag handle suffix =>
    let u ← advance
    let (anchor, v) ← match u.lexeme with
      | .anchor name => do pure (some name, ← advance)
      | _ => pure (none, u)
    return (⟨t.line, anchor, some (← tagName handle suffix t.line t.line)⟩, v)
  | _ => return (⟨t.line, none, none⟩, t)

/-! ## Collections -/

/-- How to read a node: in block style or not, and whether a sequence may start here without being
deeper than the mapping around it. -/
abbrev Reader : Type := Bool → Bool → Read Node

/-- A node in block style, or nothing if one of the given tokens comes next. -/
def orNothing (node : Reader) (indentless : Bool) (t : Token) (ends : List Lexeme) :
    Read Node := do
  if ends.contains (← advance).lexeme then return nothing t else node true indentless

/-- The items of a sequence in block style. -/
def blockSequence (node : Reader) (line : Nat) : Read (List Node) := do
  drop
  let items ← loop [] fun items => do
    let t ← peek
    match t.lexeme with
    | .blockEntry =>
      return .yield ((← orNothing node false t [.blockEntry, .blockEnd]) :: items)
    | .blockEnd =>
      drop
      return .done items
    | _ => fail .noEntry line t.line
  return items.reverse

/-- The items of a sequence that is not deeper than the mapping around it. -/
def indentlessSequence (node : Reader) : Read (List Node) := do
  let items ← loop [] fun items => do
    let t ← peek
    if t.lexeme = .blockEntry then
      return .yield ((← orNothing node false t [.blockEntry, .key, .value, .blockEnd]) :: items)
    else return .done items
  return items.reverse

/-- The entries of a mapping in block style. -/
def blockMapping (node : Reader) (line : Nat) : Read (List (Node × Node)) := do
  let ends : List Lexeme := [.key, .value, .blockEnd]
  drop
  let entries ← loop [] fun entries => do
    let t ← peek
    match t.lexeme with
    | .key =>
      let key ← orNothing node true t ends
      let u ← peek
      let value ← if u.lexeme = .value then orNothing node true u ends else pure (nothing u)
      return .yield ((key, value) :: entries)
    | .blockEnd =>
      drop
      return .done entries
    | _ => fail .noKey line t.line
  return entries.reverse

/-- The token that starts an item in flow style: items are parted by commas, and there may be one
after the last. -/
def flowItem (first : Bool) (close : Lexeme) (cause : Cause) (line : Nat) : Read Token := do
  let t ← peek
  if first || t.lexeme = close then return t
  else if t.lexeme = .flowEntry then advance
  else fail cause line t.line

/-- The value after a key in flow style, which may be left out. -/
def flowValue (node : Reader) (close : Lexeme) : Read Node := do
  let t ← peek
  if t.lexeme = .value then
    let u ← advance
    if u.lexeme = .flowEntry ∨ u.lexeme = close then return nothing u else node false false
  else return nothing t

/-- A mapping of one entry in a sequence. -/
def pair (node : Reader) (line : Nat) : Read Node := do
  let t ← advance
  let key ←
    if [.value, .flowEntry, .flowSequenceEnd].contains t.lexeme then do
      drop
      pure (nothing t)
    else node false false
  let value ← flowValue node .flowSequenceEnd
  let _ ← peek
  return .mapping (line + 1) .map [(key, value)]

/-- The items of a sequence in flow style. -/
def flowSequence (node : Reader) (line : Nat) : Read (List Node) := do
  drop
  let items ← loop [] fun items => do
    let t ← flowItem items.isEmpty .flowSequenceEnd .noSequenceComma line
    if t.lexeme = .flowSequenceEnd then
      drop
      return .done items
    else if t.lexeme = .key then return .yield ((← pair node t.line) :: items)
    else return .yield ((← node false false) :: items)
  return items.reverse

/-- The entries of a mapping in flow style. -/
def flowMapping (node : Reader) (line : Nat) : Read (List (Node × Node)) := do
  drop
  let entries ← loop [] fun entries => do
    let t ← flowItem entries.isEmpty .flowMappingEnd .noMappingComma line
    if t.lexeme = .flowMappingEnd then
      drop
      return .done entries
    else if t.lexeme = .key then
      let u ← advance
      let key ←
        if [.value, .flowEntry, .flowMappingEnd].contains u.lexeme then pure (nothing u)
        else node false false
      return .yield ((key, ← flowValue node .flowMappingEnd) :: entries)
    else
      let key ← node false false
      return .yield ((key, nothing (← peek)) :: entries)
  return entries.reverse

/-! ## Nodes and documents -/

/-- A sequence with what stands in front of it. -/
def sequenceOf (p : Properties) (items : Read (List Node)) : Read Node :=
  let tag := Tag.ofCollection p.tag .seq
  within p.anchor ⟨p.line + 1, tag, false⟩ do return .sequence (p.line + 1) tag (← items)

/-- A mapping with what stands in front of it. -/
def mappingOf (p : Properties) (entries : Read (List (Node × Node))) : Read Node :=
  let tag := Tag.ofCollection p.tag .map
  within p.anchor ⟨p.line + 1, tag, true⟩ do return .mapping (p.line + 1) tag (← entries)

/-- A scalar with what stands in front of it. -/
def scalarOf (p : Properties) (text : String) (plain : Bool) : Read Node :=
  register p.anchor (.scalar (p.line + 1) (.ofScalar p.tag text plain) text)

/-- A node of at most the given depth. -/
def node : Nat → Reader
  | 0, _, _ => throw (.general (.depth Scan.depthLimit))
  | fuel + 1, block, indentless => do
    let t ← peek
    match t.lexeme with
    | .alias name =>
      let n ← aliased name (t.line + 1)
      drop
      return n
    | _ =>
      let (p, t) ← properties
      match t.lexeme, block, indentless with
      | .blockEntry, _, true => sequenceOf p (indentlessSequence (node fuel))
      | .scalar text plain, _, _ =>
        let n ← scalarOf p text plain
        drop
        return n
      | .flowSequenceStart, _, _ => sequenceOf p (flowSequence (node fuel) t.line)
      | .flowMappingStart, _, _ => mappingOf p (flowMapping (node fuel) t.line)
      | .blockSequenceStart, true, _ => sequenceOf p (blockSequence (node fuel) t.line)
      | .blockMappingStart, true, _ => mappingOf p (blockMapping (node fuel) t.line)
      | _, _, _ =>
        if p.anchor.isSome || p.tag.isSome then scalarOf p "" true
        else fail .noContent p.line t.line

/-- Does a token stand in front of a document? -/
def isDirective : Lexeme → Bool
  | .versionDirective .. | .tagDirective .. => true
  | _ => false

/-- The handles that need no directive. -/
def standardHandles : List (String × String) := [("!", "!"), ("!!", Tag.languageUri)]

/-- The directives in front of a document. -/
def directives : Read Unit := do
  let _ ← loop false fun versioned => do
    let t ← peek
    match t.lexeme with
    | .versionDirective major minor =>
      if versioned then fail .repeatedVersion 0 t.line
      if major ≠ 1 ∨ minor ≠ 1 then fail .otherVersion 0 t.line
      drop
      return .yield true
    | .tagDirective handle uri =>
      if ((← get).handles.lookup handle).isSome then fail .repeatedTag 0 t.line
      modify fun r => { r with handles := r.handles ++ [(handle, uri)] }
      drop
      return .yield versioned
    | _ => return .done versioned
  modify fun r => { r with handles := r.handles ++ standardHandles }

/-- The content of a document after the line that starts it. -/
def content : Read Node := do
  let t ← peek
  if isDirective t.lexeme || [.documentStart, .documentEnd, .streamEnd].contains t.lexeme then
    return nothing t
  else node (← get).tokens.bound true false

/-- The content of the first document, if there is one. The token after it has to be one. -/
def document : Read (Option Node) := do
  let t ← peek
  if t.lexeme = .streamEnd then return none
  directives
  let n ←
    if isDirective t.lexeme || t.lexeme = .documentStart then do
      let t ← peek
      if t.lexeme ≠ .documentStart then fail .noDocumentStart 0 t.line
      drop
      content
    else node (← get).tokens.bound true false
  let _ ← peek
  return some n

end Read

namespace Node

/-- The content of the first document of a source, if there is one. -/
def ofSource (s : Source) : Except Problem (Option Node) := do
  let (n, _) ← Read.document.run { tokens := .ofInput (.ofSource s) }
  return n

end Node

end ValueGrammar.Yaml
