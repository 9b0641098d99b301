import ValueGrammar.Dictionary
import ValueGrammar.Yaml.Node.Read

/-!
# `ValueGrammar.Dictionary.Document` — dictionaries as documents

A dictionary is written as a YAML document with two mappings from names to grammars. Nothing of a
document that cannot be decoded is used.

## Contents
- `Document`, `Document.ofSource`.
- `Dictionary.addDocument`: the grammars of a document added to a dictionary.
- `Dictionary.load`: the same for a document given as bytes; `Dictionary.loadText`.
-/

namespace ValueGrammar

/-- Named grammars in the order they are written in. -/
structure Document where
  types : List (String × String) := []
  properties : List (String × String) := []
  deriving Repr, DecidableEq, Inhabited

namespace Document

open Yaml

/-- The shape that documents have. -/
def shape : Shape := .record "cssmatch.dictionaryFile"

/-- The document, and which of its fields were there. -/
abbrev Fields : Type := Document × List String

/-- Adds a field to a document, if it has a place for it. -/
def addField (s : Fields) (e : Decode.Entry) : Decode Fields := do
  let (d, seen) := s
  if e.key ≠ "types" ∧ e.key ≠ "properties" then
    Decode.fault (.unknownField e.line e.key shape)
    return s
  else if seen.contains e.key then
    Decode.fault (.repeatedField e.line e.key shape)
    return s
  else
    let strings ← Decode.strings e.value
    let seen := e.key :: seen
    if e.key = "types" then return ({ d with types := strings }, seen)
    else return ({ d with properties := strings }, seen)

/-- The document that a node stands for. -/
def ofNode (n : Node) : Except DocumentError Document :=
  match (Decode.entriesOf shape addField ({}, []) n).run {} with
  | .error p => .error (.problem p)
  | .ok ((d, _), state) => if state.faults.isEmpty then .ok d else .error (.faults state.faults)

/-- The first document of a source; there may be none. -/
def ofSource (s : Source) : Except DocumentError Document :=
  match Node.ofSource s with
  | .error p => .error (.problem p)
  | .ok none => .ok {}
  | .ok (some n) => ofNode n

end Document

namespace Dictionary

/-- Adds the types of a document, then its properties, up to the first grammar that cannot be read.
The dictionary has those before it. -/
def addDocument (d : Dictionary) (doc : Document) : Except Error Unit × Dictionary :=
  match d.addAll .type doc.types with
  | (.ok (), d') => d'.addAll .property doc.properties
  | (.error e, d') => (.error e, d')

/-- Adds the grammars of a document. -/
def load (d : Dictionary) (source : Yaml.Source) : Except Error Unit × Dictionary :=
  match Document.ofSource source with
  | .ok doc => d.addDocument doc
  | .error e => (.error (.document e), d)

/-- Adds the grammars of a document given as text. -/
def loadText (d : Dictionary) (text : String) : Except Error Unit × Dictionary :=
  d.load (.ofText text)

end Dictionary

end ValueGrammar
