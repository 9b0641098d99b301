import ValueGrammar.Number.Reader
import ValueGrammar.Range
import ValueGrammar.Text.Case
import ValueGrammar.Token.Scan

/-!
# `ValueGrammar.Recognizer` — types that no grammar describes

Some types of CSS are about the inside of a token (`<length>` needs a unit of length) or about
brackets that balance (`<any-value>`). Any function that looks at the significant tokens from the
current one on and says how many of them make up a value can recognize a type; if there are none, it
does not match. The types of CSS itself have recognizers of their own.

## Contents
- `Recognition`: what a caller may recognize a type with.
- `numericPrefix`: where the number in a dimension ends.
- `Recognizer`, its names, and `Recognizer.consume`.
- `functionLength`, `balancedLength`: the ones that count brackets.
-/

namespace ValueGrammar

/-- How many of the tokens ahead make up a value of a type, where its numbers may be restricted to a
range; zero if they do not start with one. -/
abbrev Recognition : Type := List Token → Option Range → Nat

/-- How many leading characters make up a number of CSS: a sign, digits, a point with digits after
it, and an exponent that has a digit. Zero if there is no number. -/
def numericPrefix (cs : List Char) : Nat :=
  let s := Scan.sign cs
  let whole := Scan.run Char.isDigit (cs.drop s)
  let n := s + whole
  let fraction :=
    match cs.drop n with
    | '.' :: r =>
      match Scan.run Char.isDigit r with
      | 0 => 0
      | d => d + 1
    | _ => 0
  if whole == 0 && fraction == 0 then 0
  else n + fraction + Scan.exponent (cs.drop (n + fraction))

/-- Units of length. -/
def lengthUnits : List String := [
  "cm", "mm", "q", "in", "pt", "pc", "px",
  "em", "rem", "ex", "rex", "cap", "rcap", "ch", "rch", "ic", "ric", "lh", "rlh",
  "vw", "svw", "lvw", "dvw", "vh", "svh", "lvh", "dvh",
  "vi", "svi", "lvi", "dvi", "vb", "svb", "lvb", "dvb",
  "vmin", "svmin", "lvmin", "dvmin", "vmax", "svmax", "lvmax", "dvmax",
  "cqw", "cqh", "cqi", "cqb", "cqmin", "cqmax"]

/-- Units of angles. -/
def angleUnits : List String := ["deg", "grad", "rad", "turn"]

/-- Units of time. -/
def timeUnits : List String := ["s", "ms"]

/-- Units of frequency. -/
def frequencyUnits : List String := ["hz", "khz"]

/-- Units of resolution. -/
def resolutionUnits : List String := ["dpi", "dpcm", "dppx", "x"]

/-- Units of flexible length. -/
def flexUnits : List String := ["fr"]

/-- The functions that stand for any numeric value. They are not evaluated; only their parentheses
have to balance. -/
def mathFunctions : List String :=
  ["calc(", "-moz-calc(", "-webkit-calc(", "min(", "max(", "clamp("]

/-- Keywords that every property takes, and that are no custom identifiers. -/
def reservedIdents : List String :=
  ["inherit", "initial", "unset", "revert", "revert-layer", "default"]

/-- The types of CSS that are recognized by looking at tokens. -/
inductive Recognizer where
  | ident
  | customIdent
  | dashedIdent
  | customPropertyName
  | string
  | url
  | hexColor
  | number
  | integer
  | percentage
  | zero
  | dimension
  | length
  | angle
  | time
  | frequency
  | resolution
  | flex
  | declarationValue
  | anyValue
  | urange
  deriving Repr, DecidableEq, Inhabited

namespace Recognizer

/-- Every recognizer. -/
def all : List Recognizer := [
  .ident, .customIdent, .dashedIdent, .customPropertyName, .string, .url, .hexColor, .number,
  .integer, .percentage, .zero, .dimension, .length, .angle, .time, .frequency, .resolution, .flex,
  .declarationValue, .anyValue, .urange]

/-- The name of the type. -/
def name : Recognizer → String
  | .ident => "ident"
  | .customIdent => "custom-ident"
  | .dashedIdent => "dashed-ident"
  | .customPropertyName => "custom-property-name"
  | .string => "string"
  | .url => "url"
  | .hexColor => "hex-color"
  | .number => "number"
  | .integer => "integer"
  | .percentage => "percentage"
  | .zero => "zero"
  | .dimension => "dimension"
  | .length => "length"
  | .angle => "angle"
  | .time => "time"
  | .frequency => "frequency"
  | .resolution => "resolution"
  | .flex => "flex"
  | .declarationValue => "declaration-value"
  | .anyValue => "any-value"
  | .urange => "urange"

/-- The recognizer of the type with the given name. -/
def ofName? (s : String) : Option Recognizer := all.find? (·.name == s)

/-! ## One token -/

/-- One token of the given kind. -/
def isKind (kind : TokenKind) (t : Token) : Bool := t.kind == kind

/-- Is the number written in `s` within the range? Without a range, anything is. -/
def inRange (s : String) (range : Option Range) : Bool :=
  match range with
  | none => true
  | some r =>
    match Binary64.read? s with
    | some v => r.contains v
    | none => false

/-- An identifier that no property reserves. -/
def isCustomIdent (t : Token) : Bool :=
  t.kind == .ident && !reservedIdents.contains (Text.lower t.value)

/-- An identifier with two dashes in front. -/
def isDashedIdent (t : Token) : Bool :=
  t.kind == .ident &&
    match t.value.toList with
    | '-' :: '-' :: _ :: _ => true
    | _ => false

/-- A colour in hexadecimal. -/
def isHexColor (t : Token) : Bool :=
  t.kind == .hash &&
    let digits := match t.value.toList with
      | '#' :: r => r
      | r => r
    [3, 4, 6, 8].contains digits.length && digits.all Scan.isHexDigit

/-- A number. -/
def isNumber (t : Token) (range : Option Range) : Bool :=
  t.kind == .number && inRange t.value range

/-- A number written without a point or an exponent. -/
def isInteger (t : Token) (range : Option Range) : Bool :=
  t.kind == .number && !t.value.toList.any (fun c => c == '.' || c == 'e' || c == 'E') &&
    inRange t.value range

/-- The text of a percentage without its sign. -/
def percentageNumber (value : String) : String :=
  let cs := value.toList
  String.ofList (if cs.getLast? == some '%' then cs.dropLast else cs)

/-- A percentage. -/
def isPercentage (t : Token) (range : Option Range) : Bool :=
  t.kind == .percentage && inRange (percentageNumber t.value) range

/-- A number that is zero. -/
def isZero (t : Token) : Bool :=
  t.kind == .number &&
    match Binary64.read? t.value with
    | some v => v.isZero
    | none => false

/-- A dimension with one of the given units, or with any. -/
def isDimension (units : Option (List String)) (t : Token) (range : Option Range) : Bool :=
  t.kind == .dimension &&
    let cs := t.value.toList
    let n := numericPrefix cs
    n != 0 && n != cs.length &&
      (match units with
        | some us => us.contains (Text.lower (String.ofList (cs.drop n)))
        | none => true) &&
      inRange (String.ofList (cs.take n)) range

/-! ## Several tokens -/

/-- How many tokens there are up to the parenthesis that closes the `depth` open ones. -/
def functionLength? : Nat → List Token → Option Nat
  | _, [] => none
  | depth, t :: ts =>
    match t.kind with
    | .function => (functionLength? (depth + 1) ts).map (· + 1)
    | .leftParen => (functionLength? (depth + 1) ts).map (· + 1)
    | .rightParen =>
      if depth ≤ 1 then some 1 else (functionLength? (depth - 1) ts).map (· + 1)
    | _ => (functionLength? depth ts).map (· + 1)

/-- The tokens of a function and its arguments; zero if it is not closed. -/
def functionLength : List Token → Nat
  | [] => 0
  | _ :: ts => (functionLength? 1 ts).elim 0 (· + 1)

/-- The brackets still open after a token, or `none` if a value cannot go on with it: a closing
bracket has to close the innermost open one. A declaration value holds no bad token either, and
outside brackets no `;` and no `!`. -/
def bracketsAfter (declaration : Bool) (closers : List TokenKind) (t : Token) :
    Option (List TokenKind) :=
  match t.kind with
  | .badString => if declaration then none else some closers
  | .badUrl => if declaration then none else some closers
  | .semicolon => if declaration && closers.isEmpty then none else some closers
  | .delim => if declaration && closers.isEmpty && t.value == "!" then none else some closers
  | .function => some (.rightParen :: closers)
  | .leftParen => some (.rightParen :: closers)
  | .leftBracket => some (.rightBracket :: closers)
  | .leftBrace => some (.rightBrace :: closers)
  | .rightParen => if closers.head? == some .rightParen then some closers.tail else none
  | .rightBracket => if closers.head? == some .rightBracket then some closers.tail else none
  | .rightBrace => if closers.head? == some .rightBrace then some closers.tail else none
  | _ => some closers

/-- How many tokens a value with balanced brackets can take. -/
def balancedLength (declaration : Bool) : List TokenKind → List Token → Nat
  | _, [] => 0
  | closers, t :: ts =>
    match bracketsAfter declaration closers t with
    | some closers' => balancedLength declaration closers' ts + 1
    | none => 0

/-- A url token, or a function `url(` with a string. -/
def urlLength : List Token → Nat
  | t :: ts =>
    if t.kind == .url then 1
    else if t.kind == .function && Text.equalFold t.value "url(" then
      match ts with
      | s :: e :: _ => if s.kind == .string && e.kind == .rightParen then 3 else 0
      | _ => 0
    else 0
  | [] => 0

/-! ## All of them -/

/-- One token that passes a test. -/
def single (p : Token → Bool) : List Token → Nat
  | t :: _ => if p t then 1 else 0
  | [] => 0

/-- One token that passes a test, or a function that stands for a number. -/
def numeric (p : Token → Bool) : List Token → Nat
  | t :: ts =>
    if t.kind == .function then
      if mathFunctions.contains (Text.lower t.value) then functionLength (t :: ts) else 0
    else if p t then 1 else 0
  | [] => 0

/-- How many of the tokens ahead make up a value of the type; zero if they do not start with one. -/
def consume (r : Recognizer) (ahead : List Token) (range : Option Range) : Nat :=
  match r with
  | .ident => single (isKind .ident) ahead
  | .customIdent => single isCustomIdent ahead
  | .dashedIdent => single isDashedIdent ahead
  | .customPropertyName => single isDashedIdent ahead
  | .string => single (isKind .string) ahead
  | .url => urlLength ahead
  | .hexColor => single isHexColor ahead
  | .number => numeric (isNumber · range) ahead
  | .integer => numeric (isInteger · range) ahead
  | .percentage => numeric (isPercentage · range) ahead
  | .zero => single isZero ahead
  | .dimension => numeric (isDimension none · range) ahead
  | .length => numeric (fun t => isZero t || isDimension (some lengthUnits) t range) ahead
  | .angle => numeric (fun t => isZero t || isDimension (some angleUnits) t range) ahead
  | .time => numeric (isDimension (some timeUnits) · range) ahead
  | .frequency => numeric (isDimension (some frequencyUnits) · range) ahead
  | .resolution => numeric (isDimension (some resolutionUnits) · range) ahead
  | .flex => numeric (isDimension (some flexUnits) · range) ahead
  | .declarationValue => balancedLength true [] ahead
  | .anyValue => balancedLength false [] ahead
  | .urange => single (isKind .unicodeRange) ahead

instance : Coe Recognizer Recognition := ⟨consume⟩

end Recognizer

end ValueGrammar
