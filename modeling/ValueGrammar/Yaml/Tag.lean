import ValueGrammar.Number.Integer
import ValueGrammar.Yaml.Timestamp

/-!
# `ValueGrammar.Yaml.Tag` — what kind of thing a node is

Every node has a tag. It is written in front of the node, or else it follows from what the node
looks like: a plain text may be a number, a truth value, a point in time, or nothing at all.

## Contents
- `Tag`, `Tag.ofName`, `Tag.name`.
- `Tag.ofPlain`: the tag of a plain text.
- `Tag.ofScalar`: the tag of any scalar.
- `Tag.admits`: does a text fit the tag written in front of it?
-/

namespace ValueGrammar.Yaml

/-- What kind of thing a node is. -/
inductive Tag where
  | null
  | bool
  | int
  | float
  | timestamp
  | str
  | seq
  | map
  | binary
  | merge
  | other (name : String)
  deriving Repr, DecidableEq, Inhabited

namespace Tag

/-- The tags of the language itself start with this. -/
def languageUri : String := "tag:yaml.org,2002:"

/-- The tags that have a meaning here, by their short names. -/
def known : List (String × Tag) :=
  [("!!null", .null), ("!!bool", .bool), ("!!int", .int), ("!!float", .float),
    ("!!timestamp", .timestamp), ("!!str", .str), ("!!seq", .seq), ("!!map", .map),
    ("!!binary", .binary), ("!!merge", .merge)]

/-- The tag with a name, which is short or a URI. -/
def ofName (name : String) : Tag :=
  let cs := name.toList
  let uri := languageUri.toList
  let short := if uri.isPrefixOf cs then "!!" ++ String.ofList (cs.drop uri.length) else name
  (known.lookup short).getD (.other short)

/-- The short name of a tag. -/
def name : Tag → String
  | .null => "!!null"
  | .bool => "!!bool"
  | .int => "!!int"
  | .float => "!!float"
  | .timestamp => "!!timestamp"
  | .str => "!!str"
  | .seq => "!!seq"
  | .map => "!!map"
  | .binary => "!!binary"
  | .merge => "!!merge"
  | .other n => n

/-! ## Plain texts -/

/-- The words with a meaning of their own. -/
def ofWord? (text : String) : Option Tag :=
  if ["", "~", "null", "Null", "NULL"].contains text then some .null
  else if ["true", "True", "TRUE", "false", "False", "FALSE"].contains text then some .bool
  else if [".nan", ".NaN", ".NAN", ".inf", ".Inf", ".INF", "+.inf", "+.Inf", "+.INF", "-.inf",
      "-.Inf", "-.INF"].contains text then some .float
  else none

/-- Is the text a whole number that fits in 64 bits with a sign? -/
def isSigned (text : String) : Bool :=
  (Integer.read? text).isSome ||
    match text.toList with
    | '0' :: mark :: sign :: digits =>
      (mark == 'b' || mark == 'o') && (sign == '+' || sign == '-') && !digits.isEmpty &&
        (Integer.read? (String.ofList (sign :: '0' :: mark :: digits))).isSome
    | _ => false

/-- Is the text a whole number that fits in 64 bits without a sign? -/
def isUnsigned (text : String) : Bool :=
  let cs := text.toList
  let (base, digits) := Integer.base cs
  match Integer.digits? base digits 0 with
  | some n => !cs.isEmpty && n < 0x10000000000000000
  | none => false

/-- Is the text a number with a point or an exponent? -/
def isDecimal (text : String) : Bool :=
  text.toList.all (fun c => c.isDigit || ".eE+-".toList.contains c) && (Binary64.read? text).isSome

/-- A text without the `_` that may stand in numbers. -/
def withoutSeparators (text : String) : String := String.ofList (text.toList.filter (· != '_'))

/-- The tag of a plain text. -/
def ofPlain (text : String) : Tag :=
  match ofWord? text, text.toList.head? with
  | some t, _ => t
  | none, none => .null
  | none, some c =>
    if c == '.' then (if (Binary64.read? text).isSome then .float else .str)
    else if c.isDigit || c == '+' || c == '-' then
      let digits := withoutSeparators text
      if isTimestamp text.toList then .timestamp
      else if isSigned digits || isUnsigned digits then .int
      else if isDecimal digits then .float
      else .str
    else .str

/-- The tag of a scalar: the one written in front of it; else that of its text if it is plain. A
lone exclamation mark is no tag. -/
def ofScalar (written : Option String) (text : String) (plain : Bool) : Tag :=
  match written with
  | some "!" | none =>
    if !plain then .str else if text = "<<" then .merge else ofPlain text
  | some name => ofName name

/-- The tag of a collection. -/
def ofCollection (written : Option String) (default : Tag) : Tag :=
  match written with
  | some "!" | none => default
  | some name => ofName name

/-- Does a text fit the tag written in front of it? Whole numbers are numbers with a point too. -/
def admits (t : Tag) (text : String) : Bool :=
  match t with
  | .null | .bool | .int | .timestamp => ofPlain text = t
  | .float => ofPlain text = .float || (ofPlain text = .int && isSigned (withoutSeparators text))
  | _ => true

end Tag

end ValueGrammar.Yaml
