import ValueGrammar.Dictionary.File
import ValueGrammar.Stylesheet.Report

/-!
# `ValueGrammar.Workspace` — settings, dictionaries and a checker that belong together

A workspace has settings, a dictionary, a checker and a matcher. A dictionary and a checker go by
the settings they were made with, so a change to those settings shows in them later, while new
settings do not concern them. The checker likewise keeps the dictionary it was made with.

Every operation is an `Action`: it answers or fails, and what it has changed until then
stays changed.

## Contents
- `Counter`: statistics of matches.
- `Workspace`, `Action`, `Workspace.create`.
- `Workspace.change`, `Workspace.getBool`, … : settings.
- `Workspace.add`, `Workspace.lookup`, `Workspace.load`, … : the dictionary.
- `Workspace.matchTokens`: the matcher.
- `Workspace.checkGrammar`, `Workspace.checkText`, `Workspace.checkProperty`, `Workspace.validate`, … :
  the checker.
-/

namespace ValueGrammar

/-- Statistics of matches. -/
structure Counter where
  /-- how many steps they took together -/
  iterations : Nat := 0
  /-- how many there were -/
  runs : Nat := 0
  /-- how many of them were given up -/
  limited : Nat := 0
  deriving Repr, DecidableEq, Inhabited

namespace Counter

/-- One more match. -/
def record (c : Counter) (r : MatchResult) : Counter where
  iterations := c.iterations + r.iterations
  runs := c.runs + 1
  limited := if r.reason = .limited then c.limited + 1 else c.limited

end Counter

/-- A dictionary, and which settings it compiles with. -/
structure Library where
  dictionary : Dictionary
  settings : Nat
  deriving Inhabited

/-- A checker, and which settings and which dictionary it goes by. -/
structure Inspector where
  checker : Checker
  settings : Nat
  library : Nat

/-- A matcher, and whether its matches are counted. -/
structure Runner where
  matcher : Matcher
  counted : Bool

/-- Settings, a dictionary, a checker and a matcher, beside those of before that are still in
use. -/
structure Workspace where
  /-- all the settings there ever were -/
  shelves : Array Settings
  /-- the number of the present settings -/
  settings : Nat
  /-- all the dictionaries there ever were -/
  libraries : Array Library
  /-- the number of the present dictionary -/
  library : Nat
  inspector : Inspector
  runner : Runner
  counter : Counter
  /-- the entries logged so far -/
  logs : List LogEntry

/-- A change of a workspace that answers or fails. -/
abbrev Action : Type → Type := ExceptT Error (StateM Workspace)

namespace Workspace

/-! ## Parts -/

/-- The settings with a number. -/
def settingsAt (w : Workspace) (n : Nat) : Settings := w.shelves.getD n Settings.standard

/-- The dictionary with a number. -/
def libraryAt (w : Workspace) (n : Nat) : Library := w.libraries.getD n ⟨Dictionary.empty, 0⟩

/-- The present settings. -/
def present : Action Settings := do
  let w ← get
  return w.settingsAt w.settings

/-- Puts new settings beside the others. -/
def shelve (s : Settings) : Action Nat := do
  let w ← get
  set { w with shelves := w.shelves.push s }
  return w.shelves.size

/-- The number of the present settings, or of new ones with the standard values. -/
def chooseSettings (standard : Bool) : Action Nat := do
  if standard then shelve Settings.standard else return (← get).settings

/-- The dictionary with a number, and the settings it compiles with. -/
def dictionaryAt (n : Nat) : Action (Dictionary × Settings) := do
  let w ← get
  let l := w.libraryAt n
  return (l.dictionary, w.settingsAt l.settings)

/-- Replaces the dictionary with a number. -/
def keep (n : Nat) (d : Dictionary) : Action Unit :=
  modify fun w =>
    { w with libraries := w.libraries.setIfInBounds n { w.libraryAt n with dictionary := d } }

/-- Puts a new dictionary beside the others and makes it the present one. -/
def adopt (l : Library) : Action Unit :=
  modify fun w =>
    { w with libraries := w.libraries.push l, library := w.libraries.size }

/-- Logs entries. -/
def log (entries : List LogEntry) : Action Unit :=
  modify fun w => { w with logs := w.logs ++ entries }

/-- Takes away the entries logged so far. -/
def takeLogs (w : Workspace) : List LogEntry × Workspace := (w.logs, { w with logs := [] })

/-- A workspace with the given settings and named grammars. -/
def create (s : Settings) (types properties : List (String × String)) : Except Error Workspace := do
  let d ← Dictionary.ofSettings s
  let (added, d) := d.addDocument ⟨types, properties⟩
  added
  let checker ← Checker.ofSettings s
  return {
    shelves := #[s]
    settings := 0
    libraries := #[⟨d, 0⟩]
    library := 0
    inspector := ⟨checker, 0, 0⟩
    runner := ⟨checker.matcher, false⟩
    counter := {}
    logs := [] }

/-! ## Settings -/

/-- Changes one of the present settings. -/
def change (path : String) (value : Setting) : Action Unit :=
  modify fun w =>
    let s := (w.settingsAt w.settings).insert path value
    { w with shelves := w.shelves.setIfInBounds w.settings s }

/-- Reads a truth value. -/
def getBool (path : String) : Action Bool := do
  (← present).requireBool path

/-- Reads an integer. -/
def getInt (path : String) : Action Int := do
  (← present).requireInt path

/-- Reads a text. -/
def getString (path : String) : Action String := do
  (← present).requireString path

/-- The present settings as text. -/
def listing : Action String := do
  return (← present).listing

/-- Takes other settings from now on. -/
def useSettings (s : Settings) : Action Unit := do
  let n ← shelve s
  modify fun w => { w with settings := n }

/-! ## The dictionary -/

/-- Takes a new dictionary from now on. -/
def newDictionary (standard : Bool) : Action Unit := do
  let n ← chooseSettings standard
  let d ← Dictionary.ofSettings ((← get).settingsAt n)
  adopt ⟨d, n⟩

/-- Applies a change that may fail to the present dictionary. -/
def edit (f : Dictionary → Except Error Unit × Dictionary) : Action Unit := do
  let n := (← get).library
  let (d, _) ← dictionaryAt n
  let (done, d') := f d
  keep n d'
  done

/-- Adds a grammar under a name. -/
def add (r : Reference) (source : String) : Action Unit :=
  edit fun d => d.addAll r.kind [(r.name, source)]

/-- Adds a type that is recognized by looking at tokens. -/
def addGeneric (name : String) (count : Recognition) : Action Unit :=
  edit fun d => (.ok (), d.addGeneric name count)

/-- The compiled form of a named grammar, if there is one. -/
def lookup (r : Reference) : Action (Option Graph) := do
  let n := (← get).library
  let (d, s) ← dictionaryAt n
  keep n (d.touch s r)
  d.resolve s r

/-- A named grammar, if there is one. -/
def definition (r : Reference) : Action (Option Grammar) := do
  let (d, _) ← dictionaryAt (← get).library
  return (d.find? r).map Definition.grammar

/-- The names of all types, or of all properties. -/
def names (kind : ReferenceKind) : Action (List String) := do
  let (d, _) ← dictionaryAt (← get).library
  return (d.entries kind).names

/-- The references that nothing answers. -/
def missingReferences : Action (List Reference) := do
  let (d, _) ← dictionaryAt (← get).library
  return d.missingReferences

/-- Adds the grammars of a document. -/
def load (text : String) : Action Unit := edit fun d => d.loadText text

/-- Takes a new dictionary with the grammars of a document from now on, if they can be read. -/
def loadNew (standard : Bool) (text : String) : Action Unit := do
  let n ← chooseSettings standard
  let d ← Dictionary.ofSettings ((← get).settingsAt n)
  let (done, d) := d.loadText text
  done
  adopt ⟨d, n⟩

/-- Adds the grammars of a file, given its content if it exists. -/
def loadFile (path : String) (content : Option (List UInt8)) : Action Unit :=
  edit fun d => d.loadFile path content

/-! ## The matcher -/

/-- Takes a new matcher from now on. -/
def newMatcher (standard : Bool) (significance : Option Significance) (counted : Bool) :
    Action Unit := do
  let s ← if standard then pure Settings.standard else present
  let m ← Matcher.ofSettings s
  let m := match significance with
    | some sig => { m with sees := sig.sees }
    | none => m
  modify fun w => { w with runner := ⟨m, counted⟩ }

/-- Compiles a grammar given as text with the present settings. -/
def compileText (source : String) : Action Graph := do
  Graph.ofText (← present) source

/-- Compiles a grammar with the present settings. -/
def compile (g : Grammar) : Action Graph := do
  Graph.ofGrammar (← present) g.text g

/-- Matches tokens against a compiled grammar once; references stand for nothing if `alone`. -/
def matchOnce (g : Graph) (tokens : List Token) (alone : Bool) : Action MatchResult := do
  let w ← get
  let (d, s) ← dictionaryAt w.library
  let m := w.runner.matcher
  let (answer, d') := if alone then (m.runAlone tokens g, d) else m.runWith s d tokens g
  keep w.library d'
  log (limitLog m g answer)
  let r ← answer
  if w.runner.counted then modify fun w => { w with counter := w.counter.record r }
  return r

/-- Matches tokens against a compiled grammar for both forms of the trace, one after the other. -/
def matchTokens (g : Graph) (tokens : List Token) (alone : Bool) : Action MatchResult := do
  let _ ← matchOnce g tokens alone
  matchOnce g tokens alone

/-- Starts counting anew. -/
def resetCounter : Action Unit := modify fun w => { w with counter := {} }

/-! ## The checker -/

/-- Takes a new checker from now on, for the present dictionary or for a new one. The dictionary of
the checker becomes the present one. -/
def newChecker (standard fresh : Bool) : Action Unit := do
  let n ← chooseSettings standard
  let s := (← get).settingsAt n
  let d ← if fresh then some <$> liftExcept (Dictionary.ofSettings s) else pure none
  let checker ← Checker.ofSettings s
  match d with
  | some d => adopt ⟨d, n⟩
  | none => pure ()
  modify fun w => { w with inspector := ⟨checker, n, w.library⟩ }

/-- Runs a check of the checker with its dictionary. -/
def inspect (f : Checker → Settings → Dictionary → Reply) : Action Verdict := do
  let w ← get
  let (d, s) ← dictionaryAt w.inspector.library
  let reply := f w.inspector.checker s d
  keep w.inspector.library reply.dictionary
  log reply.logs
  reply.answer

/-- Checks tokens against a grammar given as text. -/
def checkGrammar (source : String) (tokens : List Token) : Action Verdict := do
  let w ← get
  let (g, checker) := w.inspector.checker.compile (w.settingsAt w.inspector.settings) source
  set { w with inspector := { w.inspector with checker } }
  let g ← g
  inspect fun c s d => c.checkTokens s d tokens g false

/-- Checks the tokens of a value of a type. -/
def checkTypeTokens (name : String) (tokens : List Token) : Action Verdict :=
  inspect fun c s d => c.checkType s d name tokens

/-- Checks a value against a grammar given as text. -/
def checkText (source value : String) : Action Verdict := checkGrammar source (Token.scan value)

/-- Checks a value of a type. -/
def checkType (name value : String) : Action Verdict := checkTypeTokens name (Token.scan value)

/-- Checks the tokens of a value of a property. -/
def checkProperty (name : String) (tokens : List Token) : Action Verdict :=
  inspect fun c s d => c.checkProperty s d name tokens

/-- Validates a stylesheet. The report is complete unless a message says why reading stopped. -/
def validate (source : String) : Action (Report × Option Error) := do
  let w ← get
  let (d, s) ← dictionaryAt w.inspector.library
  let (outcome, v) := w.inspector.checker.validate s d source
  keep w.inspector.library v.dictionary
  log v.logs
  match outcome with
  | .ok () => return (v.report, none)
  | .error e => if e.fault?.isSome then throw e else return (v.report, some e)

end Workspace

end ValueGrammar
