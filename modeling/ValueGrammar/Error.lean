import ValueGrammar.Archive.Gzip
import ValueGrammar.Grammar.Reader
import ValueGrammar.Matcher
import ValueGrammar.Settings
import ValueGrammar.State.Compile
import ValueGrammar.Yaml.Decode

/-!
# `ValueGrammar.Error` — what can go wrong

## Contents
- `Fault`: the program was set up wrongly; it ends what is being done.
- `Mismatch`: a value does not conform to a grammar.
- `DocumentError`: a document is not a dictionary.
- `Error`, `Error.message`: every cause, and its wording in one place.
-/

namespace ValueGrammar

/-- A mistake in how the library is used, not in what it is given to read. -/
inductive Fault where
  | setting (error : SettingError)
  | unknownCombinator (combinator : Combinator)
  | unexpectedState
  deriving Repr, DecidableEq, Inhabited

namespace Fault

/-- The message for people. -/
def message : Fault → String
  | .setting e => e.text
  | .unknownCombinator c => (CompileError.unknownCombinator c).text
  | .unexpectedState => "unexpected sentinel state: DisallowEmpty"

end Fault

/-- A value that does not conform to a grammar; the longest partial match stopped at `offset`. -/
structure Mismatch where
  reason : Reason
  grammar : String
  value : String
  offset : Nat
  deriving Repr, DecidableEq, Inhabited

namespace Mismatch

/-- The reason, the grammar, the value, and a caret under the place. -/
def text (e : Mismatch) : String :=
  let value := if e.value.isEmpty then "<empty string>" else e.value
  e.reason.text ++ "\n  syntax: " ++ e.grammar ++ "\n   value: " ++ value ++ "\n  --------" ++
    Text.times e.offset "-" ++ "^"

end Mismatch

/-- Why a document is not a dictionary. -/
inductive DocumentError where
  /-- it cannot be read -/
  | problem (problem : Yaml.Problem)
  /-- its nodes do not have the shapes they should have -/
  | faults (faults : List Yaml.Fault)
  deriving Repr, DecidableEq, Inhabited

namespace DocumentError

/-- The message for people. -/
def text : DocumentError → String
  | .problem p => "yaml: " ++ p.text
  | .faults fs => "yaml: unmarshal errors:\n  " ++ "\n  ".intercalate (fs.map Yaml.Fault.text)

end DocumentError

/-- Every cause for which an operation ends without the answer asked for. -/
inductive Error where
  /-- a text is not of the definition syntax -/
  | grammar (error : SyntaxError)
  /-- a grammar refers to a name that does not exist -/
  | reference (reference : Reference)
  /-- a value does not conform to a grammar -/
  | mismatch (mismatch : Mismatch)
  | unknownProperty (name : String)
  | unknownType (name : String)
  /-- custom properties accept anything -/
  | customProperty
  /-- `var()` has to be substituted before a value can be matched -/
  | varFunction
  /-- a stylesheet cannot be read -/
  | stylesheet (message : String)
  /-- a dictionary cannot be decoded -/
  | document (error : DocumentError)
  | fileNotFound (path : String)
  /-- a file does not start like the archive its name promises -/
  | archive (problem : Archive.Gzip.Problem)
  /-- a grammar cannot be compiled -/
  | compile (error : CompileError)
  | fault (fault : Fault)
  /-- an error, and what was being done -/
  | during (context : String) (error : Error)
  deriving Repr, Inhabited

namespace Error

/-- The message for people. -/
def message : Error → String
  | .grammar e => e.text
  | .reference r => "Bad syntax reference: " ++ r.text
  | .mismatch e => e.text
  | .unknownProperty name => "unknown property: " ++ name
  | .unknownType name => "unknown type: " ++ name
  | .customProperty => "matching isn't applicable to custom properties"
  | .varFunction => "matching a value with var() is not supported"
  | .stylesheet m => m
  | .document e => "can't decode dictionary: " ++ e.text
  | .fileNotFound path => "open " ++ path ++ ": no such file or directory"
  | .archive p => p.text
  | .compile e => e.text
  | .fault f => f.message
  | .during context e => context ++ ": " ++ e.message

/-- The cause, without what was being done. -/
def cause : Error → Error
  | .during _ e => e.cause
  | e => e

/-- A compile error; what only hand-made grammars can bring about is a fault. -/
def ofCompile : CompileError → Error
  | .unknownCombinator c => .fault (.unknownCombinator c)
  | e => .compile e

/-- The error of a setting. -/
def ofSetting (e : SettingError) : Error := .fault (.setting e)

/-- The fault behind an error, if there is one. -/
def fault? (e : Error) : Option Fault :=
  match e.cause with
  | .fault f => some f
  | _ => none

/-- The error of a run of the machine. -/
def ofMachine : MachineError Error → Error
  | .unresolved r => .reference r
  | .lookup e => e
  | .stuck => .fault .unexpectedState

end Error

namespace Settings

/-- Reads a truth value, or fails with a fault. -/
def requireBool (s : Settings) (path : String) : Except Error Bool :=
  (s.bool path).mapError Error.ofSetting

/-- Reads an integer, or fails with a fault. -/
def requireInt (s : Settings) (path : String) : Except Error Int :=
  (s.int path).mapError Error.ofSetting

/-- Reads a text, or fails with a fault. -/
def requireString (s : Settings) (path : String) : Except Error String :=
  (s.string path).mapError Error.ofSetting

end Settings

namespace Graph

/-- Compiles a grammar as the settings say. -/
def ofGrammar (s : Settings) (source : String) (g : Grammar) : Except Error Graph := do
  let fold ← s.requireBool Settings.enumFolding
  (Graph.compile (Compiler.standard fold) source g).mapError Error.ofCompile

/-- Reads and compiles a grammar. -/
def ofText (s : Settings) (source : String) : Except Error Graph := do
  let g ← (Grammar.parse source).mapError Error.grammar
  ofGrammar s source g

end Graph

namespace Matcher

/-- The matcher that the settings describe. -/
def ofSettings (s : Settings) : Except Error Matcher := do
  let limit ← s.requireInt Settings.iterationLimit
  let lowPriority ← s.requireBool Settings.lowPriorityTypes
  return ⟨limit, lowPriority, Token.isSignificant⟩

end Matcher

end ValueGrammar
