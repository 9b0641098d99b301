import ValueGrammar.CommandLine.Options
import ValueGrammar.Grammar.Outline
import ValueGrammar.Workspace

/-!
# `ValueGrammar.CommandLine.Program` — what the program does

The program is a function of its arguments, the files it may open and its input. It shows a grammar,
matches values against one, or validates a stylesheet.

## Contents
- `Output`, `Program`: what is printed so far, and doing something that may end the program.
- `Program.showGrammar`, `Program.matchValue`, `Program.matchLines`, `Program.validate`.
- `CommandLine.run`.
-/

namespace ValueGrammar

/-- What a program has printed, and the code it ended with. -/
structure Output where
  exit : Nat := 0
  stdout : String := ""
  stderr : String := ""
  deriving Repr, DecidableEq, Inhabited

/-- The surroundings of a program: its files by name, and its input. -/
structure Surroundings where
  file : String → Option (List UInt8)
  input : String

/-- The state of a program. -/
structure Progress where
  output : Output
  workspace : Workspace

/-- Something that a program does; failing ends it with an exit code. -/
abbrev Program : Type → Type := ExceptT Nat (StateM Progress)

namespace Program

/-- Prints to the standard output. -/
def print (text : String) : Program Unit :=
  modify fun p => { p with output := { p.output with stdout := p.output.stdout ++ text } }

/-- Prints a line to the standard output. -/
def printLine (text : String) : Program Unit := print (text ++ "\n")

/-- Prints to the standard error output. -/
def warn (text : String) : Program Unit :=
  modify fun p => { p with output := { p.output with stderr := p.output.stderr ++ text } }

/-- Prints a line to the standard error output. -/
def warnLine (text : String) : Program Unit := warn (text ++ "\n")

/-- Ends the program with a message, which is coloured whatever the options say. -/
def fatal {α : Type} (message : String) : Program α := do
  warnLine (paint Theme.red "error:" ++ " " ++ message)
  throw 1

/-- Works on the workspace. -/
def act {α : Type} (a : Action α) : Program (Except Error α) := fun p =>
  let (answer, w) := a p.workspace
  (.ok answer, { p with workspace := w })

/-- The message if there is nothing to match against. -/
def noTarget : String := "Expected one of `-syntax`, `-type` or `-property`"

/-- Loads the dictionary, and warns of references in it that nothing answers. -/
def loadDictionary (o : Options) (s : Surroundings) : Program Unit := do
  match ← act (Workspace.loadFile o.dictionary (s.file o.dictionary)) with
  | .error e => fatal ("Can't load dictionary: " ++ e.message)
  | .ok () =>
    match ← act Workspace.missingReferences with
    | .error _ => pure ()
    | .ok missing =>
      for r in missing do
        warnLine (paint o.theme.warning "warning:" ++ " " ++ (Error.reference r).message)

/-- The grammar that the options name. -/
def target (o : Options) : Action (Option Grammar) := do
  if o.grammar ≠ "" then
    return some (← (Grammar.parse o.grammar).mapError Error.grammar)
  else if o.type ≠ "" then
    match ← Workspace.definition ⟨.type, o.type⟩ with
    | some g => return some g
    | none => throw (.unknownType o.type)
  else if o.property ≠ "" then
    match ← Workspace.definition ⟨.property, o.property⟩ with
    | some g => return some g
    | none => throw (.unknownProperty o.property)
  else return none

/-- Shows the grammar that the options name. -/
def showGrammar (o : Options) : Program Unit := do
  match ← act (target o) with
  | .error e => fatal e.message
  | .ok none => fatal noTarget
  | .ok (some g) => printLine (g.pretty o.theme)

/-- Checks a value as the options say, if they do. -/
def check (o : Options) (value : String) : Option (Action Verdict) :=
  if o.grammar ≠ "" then some (Workspace.checkText o.grammar value)
  else if o.type ≠ "" then some (Workspace.checkType o.type value)
  else if o.property ≠ "" then some (Workspace.checkProperty o.property (Token.scan value))
  else none

/-- A match as text. -/
def matchText (o : Options) (r : MatchResult) : String :=
  if o.showList then TraceItem.format (r.list?.getD [])
  else
    let count := " (" ++ toString r.iterations ++ " iterations)"
    let tree := match r.tree? with
      | some t => if o.showTree then t.pretty o.theme ++ "\n" else ""
      | none => ""
    paint o.theme.matched "Match" ++ paint o.theme.muted count ++ "\n" ++ tree

/-- Matches a value and tells whether it conforms. -/
def matchValue (o : Options) (value : String) : Program Bool := do
  match check o value with
  | none => fatal noTarget
  | some a =>
    match ← act a with
    | .error e =>
      printLine (paint o.theme.mismatched "ERROR:" ++ " " ++ e.message)
      return false
    | .ok v =>
      match v.mismatch with
      | some m =>
        printLine (paint o.theme.mismatched m.text)
        return false
      | none =>
        print (matchText o v.result)
        return true

/-- The lines of an input; what follows the last line break is one unless it is empty. -/
def linesOf (input : String) : List String :=
  let lines := input.splitOn "\n"
  if lines.getLast? == some "" then lines.dropLast else lines

/-- Matches the values of an input, one a line, and asks for each. -/
def matchLines (o : Options) (input : String) : Program Unit := do
  for line in linesOf input do
    print "> "
    let value := Text.trim line
    if value ≠ "" then
      let _ ← matchValue o value
  print "> \n"

/-- An issue of a stylesheet as text; its cause is set in. -/
def issueText (t : Theme) (i : Issue) : String :=
  let colour := if i.severity = .error then t.mismatched else t.warning
  let cause := "  " ++ String.intercalate "\n  " (i.error.message.splitOn "\n")
  paint colour (i.severity.text ++ ":") ++ " " ++ i.declaration ++ "\n" ++ paint t.muted cause ++
    "\n"

/-- Validates a stylesheet and tells whether it is valid. -/
def validate (o : Options) (s : Surroundings) : Program Bool := do
  match s.file o.stylesheet with
  | none => fatal ("Can't open stylesheet: " ++ (Error.fileNotFound o.stylesheet).message)
  | some bytes =>
    match ← act (Workspace.validate ((String.fromUTF8? ⟨bytes.toArray⟩).getD "")) with
    | .error e => fatal e.message
    | .ok (_, some e) => fatal ("Can't parse stylesheet: " ++ e.message)
    | .ok (report, none) =>
      for i in report.issues do
        print (issueText o.theme i)
      print ("\n" ++ toString report.declarations ++ " declaration(s), " ++
        toString report.issues.length ++ " issue(s)\n")
      return report.valid

/-- Fails with exit code one unless something holds. -/
def require (holds : Bool) : Program Unit := if holds then pure () else throw 1

/-- The work of the program. -/
def work (o : Options) (s : Surroundings) : Program Unit := do
  if o.verbose then
    match ← act Workspace.listing with
    | .ok text => warn text
    | .error _ => pure ()
  if o.dictionary ≠ "" then loadDictionary o s
  if o.stylesheet ≠ "" then require (← validate o s)
  else if o.showGrammar then showGrammar o
  else if o.value ≠ "" then require (← matchValue o o.value)
  else matchLines o s.input

end Program

namespace CommandLine

/-- Runs the program with options. -/
def runWith (o : Options) (s : Surroundings) : Output :=
  match Workspace.create o.settings [] [] with
  | .error e => { exit := 1, stderr := e.message ++ "\n" }
  | .ok w =>
    match Program.work o s ⟨{}, w⟩ with
    | (.ok (), p) => p.output
    | (.error code, p) => { p.output with exit := code }

/-- Runs the program with arguments. Arguments it does not understand end it with code two. -/
def run (arguments : List String) (s : Surroundings) : Output :=
  match Options.ofArguments arguments with
  | .ok o => runWith o s
  | .error .help => { exit := 0 }
  | .error e => { exit := 2, stderr := e.message ++ "\n" }

end CommandLine

end ValueGrammar
