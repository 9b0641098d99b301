import ValueGrammar.Dictionary
import ValueGrammar.Log
import ValueGrammar.PropertyName

/-!
# `ValueGrammar.Checker` — checking CSS values against a dictionary

A checker matches values against the grammars of properties, of types, and against grammars given as
text. Every property also takes a few keywords, whose grammar is tried first. What a checker
compiles itself it keeps.

The dictionary is not part of the checker. Looking names up compiles them, so each operation returns
the dictionary as it is afterwards.

## Contents
- `Checker`, `Checker.ofSettings`, `Checker.compile`.
- `Verdict`, `Reply`: what a check answers.
- `Checker.checkTokens`, `Checker.checkType`, `Checker.checkProperty`.
-/

namespace ValueGrammar

/-- What checks have in common. -/
structure Checker where
  matcher : Matcher
  /-- the grammar of the keywords every property takes -/
  cssWide : Graph
  /-- the grammars compiled so far -/
  grammars : NameMap Graph

/-- The result of a check, and how the value fails to conform if it does. -/
structure Verdict where
  result : MatchResult
  mismatch : Option Mismatch
  deriving Inhabited

/-- What a check answers: a verdict or an error, the log entries made, and the dictionary
afterwards. -/
structure Reply where
  answer : Except Error Verdict
  logs : List LogEntry
  dictionary : Dictionary

namespace Error

/-- Says what was being done, unless it ended in a fault. -/
def within (context : String) (e : Error) : Error :=
  if e.fault?.isSome then e else .during context e

end Error

/-- The log entry of a match that was given up. -/
def limitLog (m : Matcher) (g : Graph) (r : Except Error MatchResult) : List LogEntry :=
  match r with
  | .ok result =>
    if result.reason = .limited then
      [⟨.warn, "match iteration limit reached",
        [("syntax", .text g.source), ("limit", .number m.limit),
          ("longest_match", .number result.longest)]⟩]
    else []
  | .error _ => []

namespace Checker

/-- A checker as the settings describe it. -/
def ofSettings (s : Settings) : Except Error Checker := do
  let source ← s.requireString Settings.cssWideKeywords
  let cssWide ← (Graph.ofText s source).mapError (.within Settings.cssWideKeywords)
  let matcher ← Matcher.ofSettings s
  return ⟨matcher, cssWide, .empty⟩

/-- Compiles a grammar, or finds it among those compiled before. -/
def compile (c : Checker) (s : Settings) (source : String) : Except Error Graph × Checker :=
  match c.grammars.get? source with
  | some g => (.ok g, c)
  | none =>
    match Graph.ofText s source with
    | .ok g => (.ok g, { c with grammars := c.grammars.insert source g })
    | .error e => (.error e, c)

/-- Does the value refer to a variable? -/
def usesVar (tokens : List Token) : Bool :=
  tokens.any fun t => t.kind == .function && Text.equalFold t.value "var("

/-- How a value fails to conform to a grammar, if it does. -/
def judge (tokens : List Token) (g : Graph) (r : MatchResult) : Verdict :=
  ⟨r, if r.matched then none else some ⟨r.reason, g.source, Token.joined tokens, r.offset⟩⟩

/-- Matches tokens against one grammar. The settings are those of the dictionary. -/
def checkGraph (c : Checker) (s : Settings) (d : Dictionary) (tokens : List Token) (g : Graph) :
    Reply :=
  let (r, d') := c.matcher.runWith s d tokens g
  ⟨r.map (judge tokens g), limitLog c.matcher g r, d'⟩

/-- Matches tokens against a grammar; where the keywords of all properties are allowed, those are
tried first. -/
def checkTokens (c : Checker) (s : Settings) (d : Dictionary) (tokens : List Token) (g : Graph)
    (cssWide : Bool) : Reply :=
  if usesVar tokens then ⟨.error .varFunction, [], d⟩
  else if cssWide then
    let first := c.checkGraph s d tokens c.cssWide
    match first.answer with
    | .error _ => first
    | .ok v =>
      if v.mismatch.isNone then first
      else
        let second := c.checkGraph s first.dictionary tokens g
        { second with logs := first.logs ++ second.logs }
  else c.checkGraph s d tokens g

/-- Finds the grammar of a property. Names with a vendor's prefix that have none of their own stand
for the name without the prefix. -/
def propertyGraph (s : Settings) (d : Dictionary) (name : String) :
    Except Error Graph × Dictionary :=
  if PropertyName.isCustom name then (.error .customProperty, d)
  else
    let name := Text.lower name
    let base := (PropertyName.vendorPrefix name).2
    let r : Reference := ⟨.property, name⟩
    let d' := d.touch s r
    match d.resolve s r with
    | .error e => (.error e, d')
    | .ok (some g) => (.ok g, d')
    | .ok none =>
      if base = name then (.error (.unknownProperty name), d')
      else
        let r' : Reference := ⟨.property, base⟩
        let d'' := d'.touch s r'
        match d'.resolve s r' with
        | .error e => (.error e, d'')
        | .ok (some g) => (.ok g, d'')
        | .ok none => (.error (.unknownProperty name), d'')

/-- Finds the grammar of a type. -/
def typeGraph (s : Settings) (d : Dictionary) (name : String) : Except Error Graph × Dictionary :=
  let r : Reference := ⟨.type, name⟩
  let d' := d.touch s r
  match d.resolve s r with
  | .error e => (.error e, d')
  | .ok (some g) => (.ok g, d')
  | .ok none => (.error (.unknownType name), d')

/-- Matches tokens against the grammar that was found, if one was. -/
def checkFound (c : Checker) (s : Settings) (found : Except Error Graph × Dictionary)
    (tokens : List Token) (cssWide : Bool) : Reply :=
  match found with
  | (.ok g, d) => c.checkTokens s d tokens g cssWide
  | (.error e, d) => ⟨.error e, [], d⟩

/-- Checks a value of a property. -/
def checkProperty (c : Checker) (s : Settings) (d : Dictionary) (name : String)
    (tokens : List Token) : Reply :=
  c.checkFound s (propertyGraph s d name) tokens true

/-- Checks a value of a type. -/
def checkType (c : Checker) (s : Settings) (d : Dictionary) (name : String) (tokens : List Token) :
    Reply :=
  c.checkFound s (typeGraph s d name) tokens false

end Checker

end ValueGrammar
