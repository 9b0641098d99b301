import ValueGrammar.CommandLine.Flag
import ValueGrammar.Number.Integer
import ValueGrammar.Outline
import ValueGrammar.Settings

/-!
# `ValueGrammar.CommandLine.Options` — the options of the program

## Contents
- `Options`, `Options.flags`, `Options.ofArguments`.
- `Options.settings`, `Options.theme`: what they say about the library.
-/

namespace ValueGrammar

/-- What the program is asked to do. A text that is not given is empty. -/
structure Options where
  /-- the grammar to match against -/
  grammar : String := ""
  /-- the type to match against -/
  type : String := ""
  /-- the property to match against -/
  property : String := ""
  /-- the value to match; values are read line by line if there is none -/
  value : String := ""
  /-- the path of a dictionary -/
  dictionary : String := ""
  /-- the path of a stylesheet to validate -/
  stylesheet : String := ""
  /-- show the grammar and nothing else -/
  showGrammar : Bool := false
  /-- show a match as a flat list -/
  showList : Bool := false
  /-- show a match as a tree -/
  showTree : Bool := true
  iterationLimit : Int := 10000
  noEnumFolding : Bool := false
  noColors : Bool := false
  verbose : Bool := false
  deriving Repr, DecidableEq, Inhabited

namespace Options

/-- The flags of the program. -/
def flags : List (Flag Options) := [
  .text "syntax" fun v o => { o with grammar := v },
  .text "type" fun v o => { o with type := v },
  .text "property" fun v o => { o with property := v },
  .text "value" fun v o => { o with value := v },
  .text "dict" fun v o => { o with dictionary := v },
  .text "stylesheet" fun v o => { o with stylesheet := v },
  .onOff "ast" fun v o => { o with showGrammar := v },
  .onOff "list" fun v o => { o with showList := v },
  .onOff "tree" fun v o => { o with showTree := v },
  ⟨"iteration-limit", false, fun v o =>
    (Integer.read? v).map fun n => { o with iterationLimit := n }⟩,
  .onOff "no-enum-folding" fun v o => { o with noEnumFolding := v },
  .onOff "no-colors" fun v o => { o with noColors := v },
  .onOff "verbose" fun v o => { o with verbose := v }]

/-- The options that arguments give. -/
def ofArguments (arguments : List String) : Except FlagError Options :=
  Flag.parse flags arguments {}

/-- The settings for the library. -/
def settings (o : Options) : Settings :=
  Settings.standard
    |>.insert Settings.iterationLimit (.int o.iterationLimit)
    |>.insert Settings.enumFolding (.bool (!o.noEnumFolding))

/-- The colours to print in. -/
def theme (o : Options) : Theme := if o.noColors then .plain else .standard

end Options

end ValueGrammar
