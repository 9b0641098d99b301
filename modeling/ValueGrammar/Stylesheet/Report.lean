import ValueGrammar.Checker
import ValueGrammar.Stylesheet.Event
import ValueGrammar.Stylesheet.Value

/-!
# `ValueGrammar.Stylesheet.Report` — validating a stylesheet

Every declaration of a stylesheet is checked against the grammar of its property. Properties nobody
knows, custom ones, and values that use variables are worth a warning only.

## Contents
- `Severity`, `Issue`, `Report`.
- `Validation`: a validation under way, `Validation.step` its reaction to one event.
- `Checker.validate`.
-/

namespace ValueGrammar

/-- How bad an issue is. -/
inductive Severity where
  | warning
  | error
  deriving Repr, DecidableEq, Inhabited

namespace Severity

/-- The name of a severity. -/
def text : Severity → String
  | .warning => "warning"
  | .error => "error"

/-- The name of the severity with the given number; all but one are warnings. -/
def nameOfCode (code : Int) : String :=
  if code == 1 then Severity.error.text else Severity.warning.text

/-- The severity of what a check of a declaration ended with. -/
def ofError (e : Error) : Severity :=
  match e.cause with
  | .unknownProperty _ => .warning
  | .varFunction => .warning
  | _ => .error

end Severity

/-- A declaration that was not accepted. -/
structure Issue where
  severity : Severity
  selector : String
  property : String
  value : String
  error : Error
  deriving Repr, Inhabited

namespace Issue

/-- The declaration in its rule. -/
def declaration (i : Issue) : String :=
  i.selector ++ " \x7b " ++ i.property ++ ": " ++ i.value ++ " \x7d"

/-- The severity, the declaration and the cause. -/
def text (i : Issue) : String :=
  i.severity.text ++ ": " ++ i.declaration ++ ": " ++ i.error.message

/-- The log entry of an issue. -/
def log (i : Issue) : LogEntry :=
  ⟨.debug, "declaration rejected",
    [("severity", .text i.severity.text), ("selector", .text i.selector),
      ("property", .text i.property), ("value", .text i.value),
      ("error", .text i.error.message)]⟩

end Issue

/-- The outcome of validating a stylesheet. -/
structure Report where
  declarations : Nat := 0
  issues : List Issue := []
  deriving Repr, Inhabited

namespace Report

/-- The number of issues that are errors. -/
def errors (r : Report) : Nat := r.issues.countP (·.severity == .error)

/-- No issue is an error. -/
def valid (r : Report) : Bool := r.errors == 0

/-- The log entry of a finished validation. -/
def log (r : Report) : LogEntry :=
  ⟨.info, "stylesheet validated",
    [("declarations", .number r.declarations), ("issues", .number r.issues.length),
      ("errors", .number r.errors)]⟩

end Report

/-- A validation under way. -/
structure Validation where
  report : Report
  /-- the selectors of the rules open, the outermost first -/
  selectors : List String
  /-- the selectors of a list seen so far -/
  group : List String
  dictionary : Dictionary
  logs : List LogEntry

namespace Validation

/-- The start of a validation. -/
def start (d : Dictionary) : Validation := ⟨{}, [], [], d, []⟩

/-- The selectors of the rules open, as one text. -/
def selector (v : Validation) : String := String.intercalate " " v.selectors

/-- One more declaration. -/
def countDeclaration (v : Validation) : Validation :=
  { v with report := { v.report with declarations := v.report.declarations + 1 } }

/-- One more issue. -/
def addIssue (v : Validation) (i : Issue) : Validation :=
  { v with
    report := { v.report with issues := v.report.issues ++ [i] }
    logs := v.logs ++ [i.log] }

/-- A rule begins; the selectors of a list are one selector. -/
def openRule (v : Validation) (selector : String) : Validation :=
  { v with
    selectors := v.selectors ++ [String.intercalate ", " (v.group ++ [Text.trim selector])]
    group := [] }

/-- A rule ends. -/
def closeRule (v : Validation) : Validation := { v with selectors := v.selectors.dropLast }

/-- The cause for which a check did not accept a value. -/
def rejection (answer : Except Error Verdict) : Option Error :=
  match answer with
  | .error e => some e
  | .ok v => v.mismatch.map Error.mismatch

/-- A declaration is checked. Only a fault ends the validation. -/
def declare (c : Checker) (s : Settings) (v : Validation) (name : String) (values : List Token) :
    Except Error Unit × Validation :=
  let tokens := Token.trimImportant values
  let reply := c.checkProperty s v.dictionary name tokens
  let v := { v.countDeclaration with
    dictionary := reply.dictionary
    logs := v.logs ++ reply.logs }
  match rejection reply.answer with
  | none => (.ok (), v)
  | some e =>
    if e.fault?.isSome then (.error e, v)
    else (.ok (), v.addIssue ⟨.ofError e, v.selector, name, Token.joined tokens, e⟩)

/-- The reaction to one event. -/
def step (c : Checker) (s : Settings) (v : Validation) (e : Event) :
    Except Error Unit × Validation :=
  match e with
  | .ignored => (.ok (), v)
  | .selector values => (.ok (), { v with group := v.group ++ [Text.trim (Token.joined values)] })
  | .beginRuleset values => (.ok (), v.openRule (Token.joined values))
  | .beginAtRule name values => (.ok (), v.openRule (name ++ Token.joined values))
  | .endRuleset => (.ok (), v.closeRule)
  | .endAtRule => (.ok (), v.closeRule)
  | .customProperty name value =>
    (.ok (), v.countDeclaration.addIssue
      ⟨.warning, v.selector, name, Text.trim value, .customProperty⟩)
  | .declaration name values => declare c s v name values

/-- The reactions to events in order, up to a fault. -/
def steps (c : Checker) (s : Settings) : Validation → List Event → Except Error Unit × Validation
  | v, [] => (.ok (), v)
  | v, e :: es =>
    match step c s v e with
    | (.ok (), v') => steps c s v' es
    | (.error f, v') => (.error f, v')

end Validation

namespace Checker

/-- Validates a stylesheet given as events, the last of which is followed by the message `broken` if
reading stopped early. The settings are those of the dictionary. -/
def validateEvents (c : Checker) (s : Settings) (d : Dictionary) (events : List Event)
    (broken : Option String) : Except Error Unit × Validation :=
  match Validation.steps c s (.start d) events with
  | (.error e, v) => (.error e, v)
  | (.ok (), v) =>
    match broken with
    | some m => (.error (.stylesheet m), v)
    | none => (.ok (), { v with logs := v.logs ++ [v.report.log] })

/-- Validates a stylesheet. Next to the outcome is the validation as it ended. -/
def validate (c : Checker) (s : Settings) (d : Dictionary) (source : String) :
    Except Error Unit × Validation :=
  let (events, broken) := Event.ofText source
  c.validateEvents s d events broken

end Checker

end ValueGrammar
