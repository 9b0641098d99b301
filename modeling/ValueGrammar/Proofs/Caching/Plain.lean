import ValueGrammar.Workspace

/-!
# `ValueGrammar.Proofs.Caching.Plain` — names and checks that keep nothing

A dictionary compiles a grammar on its first look-up and keeps the graph, or the error; a checker
keeps the graphs of the grammars it was given as text. Here the same requests are answered without
any of this: names stand for texts or recognizers, and whatever is looked up is compiled then and
there.

## Contents
- `Plain.Item`, `Plain.Names`: what was last given to every name.
- `Plain.Lexer`: checks against what the names stand for.
- `Request`, `Response`: what is asked of a dictionary and a checker, and what they answer.
- `Workspace.serve`, `Plain.Lexer.serve`: the answers to requests one after the other.
-/

namespace ValueGrammar

-- comparing two terms by computation must not start reading a text
attribute [local irreducible] Grammar.parse

/-! ## Names -/

namespace Plain

/-- What a name was last given. -/
inductive Item where
  | text (source : String) (grammar : Grammar)
  | generic (name : String) (count : Recognition)

namespace Item

/-- The grammar of an item; a generic type is a reference to itself. -/
def grammar : Item → Grammar
  | .text _ g => g
  | .generic name _ => .type name none

/-- Compiles an item. -/
def compile (s : Settings) : Item → Except Error Graph
  | .text source g => Graph.ofGrammar s source g
  | .generic name count => .ok (Graph.ofRecognition name count)

end Item

/-- What the names of types and properties were last given. -/
structure Names where
  types : NameMap Item
  properties : NameMap Item

namespace Names

/-- No names. -/
def empty : Names := ⟨.empty, .empty⟩

/-- The items of one name space. -/
def items (n : Names) : ReferenceKind → NameMap Item
  | .type => n.types
  | .property => n.properties

/-- Gives an item to a name. -/
def put (n : Names) (r : Reference) (item : Item) : Names :=
  match r.kind with
  | .type => { n with types := n.types.insert r.name item }
  | .property => { n with properties := n.properties.insert r.name item }

/-- The item of a reference. -/
def find? (n : Names) (r : Reference) : Option Item := (n.items r.kind).get? r.name

/-- Reads a grammar and gives it to a name. -/
def add (n : Names) (r : Reference) (source : String) : Except Error Names :=
  match Grammar.parse source with
  | .ok g => .ok (n.put r (.text source g))
  | .error e => .error (.during (r.kind.text ++ " " ++ r.text) (.grammar e))

/-- Gives grammars to names in order, up to the first that cannot be read. -/
def addAll (n : Names) (kind : ReferenceKind) :
    List (String × String) → Except Error Unit × Names
  | [] => (.ok (), n)
  | (name, source) :: rest =>
    match n.add ⟨kind, name⟩ source with
    | .ok n' => addAll n' kind rest
    | .error e => (.error e, n)

theorem addAll_cons (n : Names) (kind : ReferenceKind) (name source : String)
    (rest : List (String × String)) :
    n.addAll kind ((name, source) :: rest) =
      match n.add ⟨kind, name⟩ source with
      | .ok n' => n'.addAll kind rest
      | .error error => (.error error, n) := rfl

/-- Gives grammars to the names of types and of properties. -/
def addDocument (n : Names) (doc : Document) : Except Error Unit × Names :=
  match n.addAll .type doc.types with
  | (.ok (), n') => n'.addAll .property doc.properties
  | (.error e, n') => (.error e, n')

/-- Gives a recognizer to the name of a type. -/
def addGeneric (n : Names) (name : String) (count : Recognition) : Names :=
  n.put ⟨.type, name⟩ (.generic name count)

/-- The names of the generic types. -/
def generic : Names :=
  Recognizer.all.foldl (fun n (r : Recognizer) => n.addGeneric r.name r) empty

/-- The names there are at first. -/
def ofSettings (s : Settings) : Except Error Names := do
  return if ← s.requireBool Settings.genericTypes then generic else empty

/-- What a reference stands for, compiled now. -/
def resolve (n : Names) (s : Settings) (r : Reference) : Except Error (Option Graph) :=
  match n.find? r with
  | some item => some <$> item.compile s
  | none => .ok none

/-- The references in grammars that no name answers, each once. -/
def missing (n : Names) : List Reference :=
  let referencesOf (items : NameMap Item) : List Reference :=
    items.entries.flatMap fun e => e.2.grammar.references
  Dictionary.distinct []
    ((referencesOf n.types ++ referencesOf n.properties).filter fun r => (n.find? r).isNone)

end Names

/-- What checks need: settings, a matcher, the grammar of the keywords every property takes, and what
names stand for. -/
structure Lexer where
  settings : Settings
  matcher : Matcher
  cssWide : Graph
  names : Names

namespace Lexer

/-- A lexer with the given settings and named grammars. -/
def create (s : Settings) (types properties : List (String × String)) : Except Error Lexer := do
  let n ← Names.ofSettings s
  let (added, n) := n.addDocument ⟨types, properties⟩
  added
  let source ← s.requireString Settings.cssWideKeywords
  let cssWide ← (Graph.ofText s source).mapError (.within Settings.cssWideKeywords)
  let matcher ← Matcher.ofSettings s
  return ⟨s, matcher, cssWide, n⟩

/-- Matches tokens against one grammar. Every reference is compiled when it is met. -/
def checkGraph (l : Lexer) (tokens : List Token) (g : Graph) :
    Except Error Verdict × List LogEntry :=
  let resolve (r : Reference) : Except Error (Option State) :=
    (l.names.resolve l.settings r).map (Option.map Graph.root)
  let r := (l.matcher.run tokens g resolve).1.mapError Error.ofMachine
  (r.map (Checker.judge tokens g), limitLog l.matcher g r)

/-- Matches tokens against a grammar, where they are allowed after the keywords of all
properties. -/
def checkTokens (l : Lexer) (tokens : List Token) (g : Graph) (cssWide : Bool) :
    Except Error Verdict × List LogEntry :=
  if Checker.usesVar tokens then (.error .varFunction, [])
  else if cssWide then
    match l.checkGraph tokens l.cssWide with
    | (.error e, logs) => (.error e, logs)
    | (.ok v, logs) =>
      if v.mismatch.isNone then (.ok v, logs)
      else
        let (answer, logs') := l.checkGraph tokens g
        (answer, logs ++ logs')
  else l.checkGraph tokens g

/-- The grammar of a property, or of the property without the prefix of a vendor. -/
def propertyGraph (l : Lexer) (name : String) : Except Error Graph :=
  if PropertyName.isCustom name then .error .customProperty
  else
    let name := Text.lower name
    let base := (PropertyName.vendorPrefix name).2
    match l.names.resolve l.settings ⟨.property, name⟩ with
    | .error e => .error e
    | .ok (some g) => .ok g
    | .ok none =>
      if base = name then .error (.unknownProperty name)
      else
        match l.names.resolve l.settings ⟨.property, base⟩ with
        | .error e => .error e
        | .ok (some g) => .ok g
        | .ok none => .error (.unknownProperty name)

/-- The grammar of a type. -/
def typeGraph (l : Lexer) (name : String) : Except Error Graph :=
  match l.names.resolve l.settings ⟨.type, name⟩ with
  | .error e => .error e
  | .ok (some g) => .ok g
  | .ok none => .error (.unknownType name)

/-- Matches tokens against the grammar that was found, if one was. -/
def checkFound (l : Lexer) (found : Except Error Graph) (tokens : List Token) (cssWide : Bool) :
    Except Error Verdict × List LogEntry :=
  match found with
  | .ok g => l.checkTokens tokens g cssWide
  | .error e => (.error e, [])

end Lexer

end Plain

/-! ## Requests -/

/-- What is asked of a dictionary, and of a checker that goes by it. Types may be recognized in any
way, and values are given by their tokens. -/
inductive Request where
  | add (reference : Reference) (source : String)
  | addGeneric (name : String) (count : Recognition)
  | lookup (reference : Reference)
  | definition (reference : Reference)
  | names (kind : ReferenceKind)
  | missingReferences
  | checkGrammar (source : String) (tokens : List Token)
  | checkType (name : String) (tokens : List Token)
  | checkProperty (name : String) (tokens : List Token)

/-- What is answered if nothing goes wrong. The result in a verdict has the trace of a match, and so
both its list and its tree. -/
inductive Response where
  | done
  | graph (graph : Option Graph)
  | grammar (grammar : Option Grammar)
  | names (names : List String)
  | references (references : List Reference)
  | verdict (verdict : Verdict)

/-- A request to a workspace. -/
def Request.perform : Request → Action Response
  | .add r source => (fun _ => .done) <$> Workspace.add r source
  | .addGeneric name count => (fun _ => .done) <$> Workspace.addGeneric name count
  | .lookup r => .graph <$> Workspace.lookup r
  | .definition r => .grammar <$> Workspace.definition r
  | .names kind => .names <$> Workspace.names kind
  | .missingReferences => .references <$> Workspace.missingReferences
  | .checkGrammar source tokens => .verdict <$> Workspace.checkGrammar source tokens
  | .checkType name tokens => .verdict <$> Workspace.checkTypeTokens name tokens
  | .checkProperty name tokens => .verdict <$> Workspace.checkProperty name tokens

/-- The answers of a workspace to requests one after the other, and what was logged. A request that
fails does not end the sequence. -/
def Workspace.serve (w : Workspace) : List Request → List (Except Error Response) × List LogEntry
  | [] => ([], w.logs)
  | request :: rest =>
    let (answer, w') := request.perform w
    let (answers, logs) := serve w' rest
    (answer :: answers, logs)

namespace Plain.Lexer

/-- The answer of a lexer to a request, what is logged, and the lexer afterwards. -/
def answer (l : Lexer) : Request → Except Error Response × List LogEntry × Lexer
  | .add r source =>
    match l.names.add r source with
    | .ok n => (.ok .done, [], { l with names := n })
    | .error e => (.error e, [], l)
  | .addGeneric name count => (.ok .done, [], { l with names := l.names.addGeneric name count })
  | .lookup r => (.graph <$> l.names.resolve l.settings r, [], l)
  | .definition r => (.ok (.grammar ((l.names.find? r).map Item.grammar)), [], l)
  | .names kind => (.ok (.names (l.names.items kind).names), [], l)
  | .missingReferences => (.ok (.references l.names.missing), [], l)
  | .checkGrammar source tokens =>
    let (v, logs) := l.checkFound (Graph.ofText l.settings source) tokens false
    (.verdict <$> v, logs, l)
  | .checkType name tokens =>
    let (v, logs) := l.checkFound (l.typeGraph name) tokens false
    (.verdict <$> v, logs, l)
  | .checkProperty name tokens =>
    let (v, logs) := l.checkFound (l.propertyGraph name) tokens true
    (.verdict <$> v, logs, l)

theorem answer_add (l : Lexer) (r : Reference) (source : String) :
    l.answer (.add r source) =
      match l.names.add r source with
      | .ok n => (.ok .done, [], { l with names := n })
      | .error e => (.error e, [], l) := rfl

/-- The answers of a lexer to requests one after the other, and what was logged. -/
def serve (l : Lexer) : List Request → List (Except Error Response) × List LogEntry
  | [] => ([], [])
  | request :: rest =>
    let (answer, logs, l') := l.answer request
    let (answers, logs') := serve l' rest
    (answer :: answers, logs ++ logs')

end Plain.Lexer

end ValueGrammar
