import ValueGrammar.Error

/-!
# `ValueGrammar.Dictionary` — grammars under names

A dictionary holds the types and the properties that grammars refer to. A grammar is read when it is
added, and compiled when it is first looked up, with the settings of that moment; from then on the
compiled form stays, and so does the error if there was one.

## Contents
- `Definition`, `Compiled`: one entry and how far it is compiled.
- `Dictionary.addType`, `Dictionary.addProperty`, `Dictionary.addGeneric`.
- `Dictionary.resolve`, `Dictionary.touch`: what a reference stands for, and the dictionary after it
  was looked up.
- `Dictionary.missingReferences`: the references no entry answers.
-/

namespace ValueGrammar

/-- How far an entry is compiled. -/
inductive Compiled where
  | pending
  | built (graph : Graph)
  | failed (error : Error)
  /-- compiling ended in a fault; the entry is not found any more -/
  | lost
  deriving Inhabited

/-- An entry of a dictionary. -/
structure Definition where
  grammar : Grammar
  source : String
  compiled : Compiled
  deriving Inhabited

namespace Definition

/-- An entry that is yet to be compiled. -/
def ofText (source : String) : Except Error Definition := do
  let g ← (Grammar.parse source).mapError Error.grammar
  return ⟨g, source, .pending⟩

/-- The compiled form of an entry, if it is found. -/
def resolve (settings : Settings) (d : Definition) : Except Error (Option Graph) :=
  match d.compiled with
  | .pending => some <$> Graph.ofGrammar settings d.source d.grammar
  | .built g => .ok (some g)
  | .failed e => .error e
  | .lost => .ok none

/-- The entry after it was looked up. -/
def touch (settings : Settings) (d : Definition) : Definition :=
  match d.compiled with
  | .pending =>
    let compiled := match Graph.ofGrammar settings d.source d.grammar with
      | .ok g => .built g
      | .error e => if e.fault?.isSome then .lost else .failed e
    { d with compiled }
  | _ => d

end Definition

/-- The named grammars that references stand for. -/
structure Dictionary where
  types : NameMap Definition
  properties : NameMap Definition
  deriving Inhabited

namespace Dictionary

/-- No grammars. -/
def empty : Dictionary := ⟨.empty, .empty⟩

/-- The entries of one name space. -/
def entries (d : Dictionary) : ReferenceKind → NameMap Definition
  | .type => d.types
  | .property => d.properties

/-- Puts an entry under a name. -/
def put (d : Dictionary) (r : Reference) (e : Definition) : Dictionary :=
  match r.kind with
  | .type => { d with types := d.types.insert r.name e }
  | .property => { d with properties := d.properties.insert r.name e }

/-- The entry a reference names. -/
def find? (d : Dictionary) (r : Reference) : Option Definition := (d.entries r.kind).get? r.name

/-- Reads a grammar and puts it under a name, in place of what was there. -/
def add (d : Dictionary) (r : Reference) (source : String) : Except Error Dictionary :=
  match Definition.ofText source with
  | .ok e => .ok (d.put r e)
  | .error e => .error (.during (r.kind.text ++ " " ++ r.text) e)

/-- Adds a type. -/
def addType (d : Dictionary) (name source : String) : Except Error Dictionary :=
  d.add ⟨.type, name⟩ source

/-- Adds a property. -/
def addProperty (d : Dictionary) (name source : String) : Except Error Dictionary :=
  d.add ⟨.property, name⟩ source

/-- Adds a type that is recognized by looking at tokens. -/
def addGeneric (d : Dictionary) (name : String) (count : Recognition) : Dictionary :=
  let g := Graph.ofRecognition name count
  d.put ⟨.type, name⟩ ⟨g.grammar, g.source, .built g⟩

/-- A dictionary with the generic types only. -/
def generic : Dictionary :=
  Recognizer.all.foldl (fun d (r : Recognizer) => d.addGeneric r.name r) empty

/-- A new dictionary, with the generic types if the settings say so. -/
def ofSettings (s : Settings) : Except Error Dictionary := do
  return if ← s.requireBool Settings.genericTypes then generic else empty

/-- What a reference stands for, if anything. -/
def resolve (d : Dictionary) (settings : Settings) (r : Reference) : Except Error (Option Graph) :=
  match d.find? r with
  | some e => e.resolve settings
  | none => .ok none

/-- The dictionary after a reference was looked up. -/
def touch (settings : Settings) (d : Dictionary) (r : Reference) : Dictionary :=
  match d.find? r with
  | some e => d.put r (e.touch settings)
  | none => d

/-- Adds named grammars in order, up to the first that cannot be read. The dictionary has those
before it. -/
def addAll (d : Dictionary) (kind : ReferenceKind) :
    List (String × String) → Except Error Unit × Dictionary
  | [] => (.ok (), d)
  | (name, source) :: rest =>
    match d.add ⟨kind, name⟩ source with
    | .ok d' => addAll d' kind rest
    | .error e => (.error e, d)

/-- The references of all the entries of one name space, in the order of their names. -/
def referencesOf (entries : NameMap Definition) : List Reference :=
  entries.entries.flatMap fun e => e.2.grammar.references

/-- Keeps the first occurrence of every element. -/
def distinct (seen : List Reference) : List Reference → List Reference
  | [] => []
  | r :: rest => if seen.contains r then distinct seen rest else r :: distinct (r :: seen) rest

/-- The references in grammars of the dictionary that no entry of it answers, each once. -/
def missingReferences (d : Dictionary) : List Reference :=
  let all := referencesOf d.types ++ referencesOf d.properties
  distinct [] (all.filter fun r => (d.find? r).isNone)

end Dictionary

namespace Matcher

/-- Matches tokens against a compiled grammar whose references stand for entries of a dictionary.
The second answer is the dictionary afterwards. -/
def runWith (m : Matcher) (settings : Settings) (d : Dictionary) (tokens : List Token) (g : Graph) :
    Except Error MatchResult × Dictionary :=
  let resolve (r : Reference) : Except Error (Option State) :=
    (d.resolve settings r).map (Option.map Graph.root)
  let (answer, lookups) := m.run tokens g resolve
  (answer.mapError Error.ofMachine, lookups.foldl (Dictionary.touch settings) d)

/-- Matches tokens against a compiled grammar whose references stand for nothing. -/
def runAlone (m : Matcher) (tokens : List Token) (g : Graph) : Except Error MatchResult :=
  (m.run tokens g fun _ => .ok none).1.mapError Error.ofMachine

end Matcher

end ValueGrammar
