import ValueGrammar.NameMap
import ValueGrammar.Text.Blank

/-!
# `ValueGrammar.Settings` — named settings

Settings are values of three types under dotted paths. Reading one that is missing, or that has
another type, is a fault of the program that reads it.

## Contents
- `Setting`, `Settings`, `Settings.standard`.
- `SettingError`, `Settings.bool`, `Settings.int`, `Settings.string`.
- `Settings.listing`: all of them as text.
-/

namespace ValueGrammar

/-- The type of a setting. -/
inductive SettingType where
  | bool
  | int
  | string
  deriving Repr, DecidableEq, Inhabited

namespace SettingType

/-- The name of a type. -/
def text : SettingType → String
  | .bool => "bool"
  | .int => "int"
  | .string => "string"

/-- The name of a type at the beginning of a sentence. -/
def title : SettingType → String
  | .bool => "Bool"
  | .int => "Int"
  | .string => "String"

end SettingType

/-- The value of a setting. -/
inductive Setting where
  | bool (value : Bool)
  | int (value : Int)
  | string (value : String)
  deriving Repr, DecidableEq, Inhabited

namespace Setting

/-- The type of a value. -/
def type : Setting → SettingType
  | .bool _ => .bool
  | .int _ => .int
  | .string _ => .string

/-- The value and its type. -/
def text : Setting → String
  | .bool b => toString b ++ " (bool)"
  | .int n => toString n ++ " (int)"
  | .string s => s ++ " (string)"

end Setting

/-- Values under dotted paths. -/
abbrev Settings : Type := NameMap Setting

/-- Why a setting could not be read. -/
inductive SettingError where
  | missing (wanted : SettingType) (path : String)
  | wrongType (wanted found : SettingType)
  deriving Repr, DecidableEq, Inhabited

namespace SettingError

/-- The message for people. -/
def text : SettingError → String
  | .missing wanted path => wanted.title ++ " setting `" ++ path ++ "` does not exist"
  | .wrongType wanted found =>
    "Can't retrieve `" ++ wanted.text ++ "` from `" ++ found.text ++ "` variable"

end SettingError

namespace Settings

/-- Alternatives of keywords are folded into tables. -/
def enumFolding : String := "compiler.enum_folding"

/-- How many steps a match may take. -/
def iterationLimit : String := "matcher.iteration_limit"

/-- Types that match too much are put off. -/
def lowPriorityTypes : String := "matcher.low_priority_types"

/-- The grammar tried before the one of any property. -/
def cssWideKeywords : String := "lexer.css_wide_keywords"

/-- New dictionaries know the generic types. -/
def genericTypes : String := "lexer.generic_types"

/-- The settings that everything starts with. -/
def standard : Settings :=
  NameMap.empty
    |>.insert enumFolding (.bool true)
    |>.insert iterationLimit (.int 10000)
    |>.insert lowPriorityTypes (.bool true)
    |>.insert cssWideKeywords (.string "inherit | initial | unset | revert | revert-layer")
    |>.insert genericTypes (.bool true)

/-- Reads a truth value. -/
def bool (s : Settings) (path : String) : Except SettingError Bool :=
  match s.get? path with
  | some (.bool b) => .ok b
  | some v => .error (.wrongType .bool v.type)
  | none => .error (.missing .bool path)

/-- Reads an integer. -/
def int (s : Settings) (path : String) : Except SettingError Int :=
  match s.get? path with
  | some (.int n) => .ok n
  | some v => .error (.wrongType .int v.type)
  | none => .error (.missing .int path)

/-- Reads a text. -/
def string (s : Settings) (path : String) : Except SettingError String :=
  match s.get? path with
  | some (.string t) => .ok t
  | some v => .error (.wrongType .string v.type)
  | none => .error (.missing .string path)

/-- One setting a line, sorted by path. The column of paths is as wide as the longest one is in
bytes, and filled up by characters. -/
def listing (s : Settings) : String :=
  let width := s.names.foldl (fun w n => max w n.utf8ByteSize) 0
  let line (e : String × Setting) : String :=
    e.1 ++ Text.times (width - e.1.length) " " ++ " : " ++ e.2.text ++ "\n"
  "Configuration\n" ++ String.join (s.entries.map line)

end Settings

end ValueGrammar
