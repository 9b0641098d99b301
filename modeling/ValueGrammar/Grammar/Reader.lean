import ValueGrammar.Grammar.Parser
import ValueGrammar.Grammar.Precedence
import ValueGrammar.Number.Reader
import ValueGrammar.Text.Letter

/-!
# `ValueGrammar.Grammar.Reader` — reading the value definition syntax

One parser for each construct of the notation, by recursive descent:

```
Definition <- Spacing Terms Spacing EndOfInput
Terms      <- Term (Spacing Combinator? Spacing Term)*
Term       <- Primary Multiplier*
Primary    <- Group / Reference / String / AtKeyword / Comma / KeywordOrFunction / Token
Group      <- '[' Spacing Terms Spacing ']' '!'?
Reference  <- '<' Spacing ("'" Name "'" / Name '()'? Spacing Range?) Spacing '>'
Range      <- '[' Spacing Bound Spacing ',' Spacing Bound Spacing ']'
Multiplier <- '?' / '*' / '+' / '#' Repeat? / Repeat
Repeat     <- '{' Int (',' Int?)? '}'
```

Groups nest, so the parsers that may meet one take the parser of groups as an argument, and `group`
counts down a bound on the nesting: a text has no more nested groups than characters.

## Contents
- `Read.name`, `Read.reference`, `Read.range`, `Read.repetition`, `Read.multiplier`, …
- `Read.group`, `Read.term`, `Read.definition`.
- `Grammar.parse`.
-/

namespace ValueGrammar

namespace Read

open ValueGrammar.Parser

/-- A character a name may start with. -/
def isNameStart (c : Char) : Bool :=
  c == '-' || c == '_' || Text.isLetter c || Text.isDecimalDigit c

/-- A character of a name. -/
def isNameChar (c : Char) : Bool := isNameStart c || 0x7f < c.toNat

/-- A name, which may be empty. -/
def name : Parser String := String.ofList <$> takeWhile isNameChar

/-- Takes the given character, or throws. -/
def require (c : Char) (message : String) : Parser Unit := fun cur =>
  match char c cur with
  | (.ok _, cur') => (.ok (), cur')
  | (.error _, cur') => throw message cur'

/-- The value of a list of decimal digits. -/
def natOfDigits (ds : List Char) : Nat :=
  ds.foldl (fun n d => n * 10 + (d.toNat - '0'.toNat)) 0

/-- A decimal digit. -/
def digit : Parser Char := do
  match ← peek with
  | some c => if c.isDigit then anyChar else backtrack "Expected a digit"
  | none => backtrack "Expected a digit"

/-- The largest number of repetitions that can be written. -/
def maxInt : Nat := 9223372036854775807

/-- A number of repetitions. -/
def int : Parser Nat := fun cur =>
  match oneOrMore digit cur with
  | (.error _, cur') => throw "Expected a number" cur'
  | (.ok ds, cur') =>
    let n := natOfDigits ds
    if n ≤ maxInt then (.ok n, cur') else throw "Bad number" cur'

/-- What stands between braces: how often a term is repeated, at least and at most. -/
def repetition : Parser (Int × Option Int) := do
  let _ ← char '{'
  let lo ← int
  let hi ← do
    match ← peek with
    | some ',' =>
      skip 1
      match ← peek with
      | some '}' => pure none
      | _ => some <$> int
    | _ => pure (some lo)
  require '}' "Expected `\x7d`"
  match hi with
  | none => return (lo, none)
  | some n =>
    if n < lo then throw "Multiplier maximum is less than its minimum"
    else if n = 0 then throw "Multiplier maximum must be greater than zero"
    else return (lo, some (n : Int))

/-- A multiplier, applied to a term. -/
def multiplier (term : Grammar) : Parser Grammar := do
  match ← peek with
  | some '?' =>
    skip 1
    return .multiplier term 0 (some 1) false
  | some '*' =>
    skip 1
    return .multiplier term 0 none false
  | some '+' =>
    skip 1
    return .multiplier term 1 none false
  | some '#' =>
    skip 1
    match ← peek with
    | some '{' =>
      let (lo, hi) ← repetition
      return .multiplier term lo hi true
    | _ => return .multiplier term 1 none true
  | some '{' =>
    let (lo, hi) ← repetition
    return .multiplier term lo hi false
  | _ => backtrack "Expected a multiplier"

/-- Applies multipliers to a term for as long as there are any; at most `fuel` of them. -/
def multipliers : Nat → Grammar → Parser Grammar
  | 0, term => pure term
  | fuel + 1, term => fun cur =>
    match multiplier term cur with
    | (.ok wrapped, cur') => multipliers fuel wrapped cur'
    | (.error (.thrown m o), cur') => (.error (.thrown m o), cur')
    | (.error (.backtrack _ _), _) => (.ok term, cur)

/-- Throws at the place given, which becomes the cursor. -/
def throwAt {α : Type} (start : Cursor) (message : String) : Parser α := do
  moveTo start
  throw message

/-- The bound of a range; `missing` if there is none. -/
def bound (missing : Binary64) : Parser Binary64 := do
  let start ← cursor
  match start.rest with
  | ',' :: _ => return missing
  | ']' :: _ => return missing
  | _ =>
    let sign ← optional (choice [char '-', char '+'])
    let signed (v : Binary64) : Binary64 := if sign = some '-' then v.neg else v
    match ← peek with
    | some '∞' =>
      skip 1
      return signed .posInf
    | _ =>
      match ← optional (literal "Infinity") with
      | some _ => return signed .posInf
      | none =>
        let digits ← takeWhile fun c => c.isDigit || c == '.'
        if digits.isEmpty then throwAt start "Expected a number in range"
        else
          match Binary64.read? (String.ofList digits) with
          | some v => return signed v
          | none => throwAt start "Bad number in range"

/-- A numeric range. -/
def range : Parser Range := do
  let _ ← char '['
  skipSpaces
  let lo ← bound .negInf
  skipSpaces
  require ',' "Expected `,` in range"
  skipSpaces
  let hi ← bound .posInf
  skipSpaces
  require ']' "Expected `]` closing the range"
  if lo.le hi then return ⟨lo, hi⟩
  else throw "Range lower bound is greater than its upper bound"

/-- A reference to a property, after the opening bracket. -/
def propertyReference : Parser Grammar := do
  skip 1
  let n ← name
  if n.isEmpty then throw "Expected a property name"
  else
    require '\'' "Expected `'`"
    return .property n

/-- A reference to a type, after the opening bracket. -/
def typeReference : Parser Grammar := do
  let n ← name
  if n.isEmpty then throw "Expected a type name"
  else
    let parens ← optional (literal "()")
    let full := n ++ parens.getD ""
    skipSpaces
    match ← peek with
    | some '[' =>
      let r ← range
      return .type full (some r)
    | _ => return .type full none

/-- A reference to a type or a property. -/
def reference : Parser Grammar := do
  let _ ← char '<'
  skipSpaces
  let node ← do
    match ← peek with
    | some '\'' => propertyReference
    | _ => typeReference
  skipSpaces
  require '>' "Expected `>`"
  return node

/-- How many characters a string literal takes after its opening quote. A backslash keeps the next
character from closing it. -/
def stringLength? (quote : Char) : List Char → Option Nat
  | [] => none
  | ['\\'] => none
  | '\\' :: _ :: r => (stringLength? quote r).map (· + 2)
  | c :: r => if c = quote then some 1 else (stringLength? quote r).map (· + 1)

/-- A string literal; whatever character comes first is its quote. -/
def string : Parser Grammar := do
  let quote ← anyChar
  let start ← cursor
  match stringLength? quote start.rest with
  | some n =>
    skip n
    return .string (String.ofList (quote :: start.rest.take n))
  | none =>
    skip start.rest.length
    throw "Unterminated string"

/-- A keyword, or a function if a parenthesis follows. -/
def keywordOrFunction : Parser Grammar := do
  let n ← name
  if n.isEmpty then backtrack "Expected a name"
  else
    match ← peek with
    | some '(' =>
      skip 1
      return .function n
    | _ => return .keyword n

/-- An at-keyword. -/
def atKeyword : Parser Grammar := do
  skip 1
  let n ← name
  if n.isEmpty then throw "Expected a name after `@`" else return .atKeyword n

/-- A term without multipliers, where `group` reads a bracketed group. -/
def primaryWith (group : Parser Grammar) : Parser Grammar := do
  match ← peek with
  | none => throw "Unexpected end of input"
  | some c =>
    if c = '[' then group
    else if c = '<' then reference
    else if c = '\'' || c = '"' then string
    else if c = '@' then atKeyword
    else if c = ',' then
      skip 1
      return .comma
    else if isNameStart c then keywordOrFunction
    else if c = ']' || c = '|' || c = '&' then throw "Expected a term"
    else
      skip 1
      return .token c.toString

/-- A term with its multipliers. -/
def termWith (group : Parser Grammar) : Parser Grammar := do
  let primary ← primaryWith group
  let cur ← cursor
  multipliers (cur.rest.length + 1) primary

/-- What joins the term before the cursor to the next one. A lone `&` joins nothing. -/
def combinator : Parser Combinator :=
  choice [
    (fun _ => .all) <$> literal "&&",
    (fun _ => .any) <$> literal "||",
    (fun _ => .one) <$> char '|',
    do
      match ← peek with
      | some '&' => throw "Expected `&&`"
      | _ => return .juxtapose]

/-- Further terms up to a closing bracket or the end, each with the combinator before it; at most
`fuel` of them. -/
def moreTerms (term : Parser Grammar) : Nat → Parser (List (Combinator × Grammar))
  | 0 => pure []
  | fuel + 1 => do
    skipSpaces
    match ← peek with
    | none => return []
    | some ']' => return []
    | some _ =>
      let c ← combinator
      skipSpaces
      let t ← term
      let ts ← moreTerms term fuel
      return (c, t) :: ts

/-- The contents of a group. -/
def contentsWith (group : Parser Grammar) (bracketed : Bool) : Parser Grammar := do
  let head ← termWith group
  let cur ← cursor
  let tail ← moreTerms (termWith group) (cur.rest.length + 1)
  return Row.toGroup ⟨head, tail⟩ bracketed

/-- Marks a group as one that must not match nothing. -/
def markNonEmpty : Grammar → Grammar
  | .group c terms bracketed _ => .group c terms bracketed true
  | g => g

/-- A bracketed group with at most `depth` groups nested in it. -/
def groupWithin : Nat → Parser Grammar
  | 0 => throw "Expected a term"
  | depth + 1 => do
    let _ ← char '['
    skipSpaces
    match ← peek with
    | some ']' => throw "Empty group"
    | _ =>
      let g ← contentsWith (groupWithin depth) true
      skipSpaces
      require ']' "Expected `]`"
      match ← peek with
      | some '!' =>
        skip 1
        return markNonEmpty g
      | _ => return g

/-- A bracketed group. -/
def group : Parser Grammar := fun cur => groupWithin (cur.rest.length + 1) cur

/-- A term without multipliers. -/
def primary : Parser Grammar := primaryWith group

/-- A term with its multipliers. -/
def term : Parser Grammar := termWith group

/-- A group that is the only term of the whole definition stands for it. -/
def unwrap : Grammar → Grammar
  | .group _ [.group c terms b n] _ _ => .group c terms b n
  | g => g

/-- A whole definition, up to the end of the text. -/
def definition : Parser Grammar := do
  skipSpaces
  let g ← contentsWith group false
  skipSpaces
  match ← peek with
  | some _ => throw "Unexpected input"
  | none => return unwrap g

end Read

namespace Grammar

/-- Reads a grammar that takes up the whole text. -/
def parse (source : String) : Except SyntaxError Grammar :=
  match (Read.definition (Cursor.start source.toList)).1 with
  | .ok g => .ok g
  | .error (.thrown m o) => .error (.make source m o)
  | .error (.backtrack m o) => .error (.make source m o)

end Grammar

end ValueGrammar
