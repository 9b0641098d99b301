import ValueGrammar.Yaml.TokenStream.Scalar

/-!
# `ValueGrammar.Yaml.TokenStream.Property` — anchors, tags and directives

## Contents
- `Scan.name`: an anchor or an alias.
- `Scan.tag`: a tag, which is a handle and a suffix.
- `Scan.directive`: a version, or a handle for tags.
-/

namespace ValueGrammar.Yaml.Scan

/-- An anchor or an alias: a name after a mark, and a blank or a mark after it. -/
def name (lexeme : String → Lexeme) : Scan Unit := do
  let start ← mark
  skip
  let text ← takeWhile isName ""
  let c ← current
  if text.isEmpty || !(endsWord c || "?:,]\x7d%@`".toList.contains c) then fail .noName start
  push (lexeme text) start.line

/-! ## Tags -/

/-- The handle of a tag: an exclamation mark, or a name between two. What is no handle is the start
of a suffix, and in a directive it is wrong. -/
def tagHandle (directive : Bool) (start : Mark) : Scan String := do
  if (← next) ≠ '!' then fail .noTagMark start
  let text ← takeWhile isName (← take "")
  if (← current) == '!' then take text
  else if directive && text ≠ "!" then fail .noTagMark start
  else return text

/-- The octet that a percent sign and two digits stand for. -/
def octet (start : Mark) : Scan UInt8 := do
  need 3
  match (← get).rest with
  | '%' :: a :: b :: _ =>
    match hexDigit? a, hexDigit? b with
    | some x, some y =>
      skipMany 3
      return UInt8.ofNat (x * 16 + y)
    | _, _ => fail .noEscapedOctet start
  | _ => fail .noEscapedOctet start

/-- The octets of a character after the first one. -/
def octets (start : Mark) : Nat → List UInt8 → Scan (List UInt8)
  | 0, read => pure read.reverse
  | n + 1, read => do
    let b ← octet start
    if !Text.isTrail b then fail .escapedTrailingOctet start
    octets start n (b :: read)

/-- A character written as octets. -/
def escapedChar (start : Mark) : Scan String := do
  let b ← octet start
  match Text.leadWidth? b with
  | some width => return Text.ofBytesLossy (← octets start (width - 1) [b])
  | none => fail .escapedLeadingOctet start

/-- A character of tags. -/
def isUri (c : Char) : Bool := isName c || ";/?:@&=+$,.%!~*'()[]".toList.contains c

/-- The suffix of a tag that goes on from a text; nothing at all is not one. -/
def tagUri (start : Mark) (head : String) (given : Bool) : Scan String := do
  let (text, any) ← loop (head, given) fun (text, any) => do
    let c ← next
    if c == '%' then return .yield (text ++ (← escapedChar start), true)
    else if isUri c then return .yield (← take text, true)
    else return .done (text, any)
  if any then return text else fail .noTagUri start

/-- A tag: `!<suffix>`, `!handle!suffix`, `!suffix`, or `!` alone. -/
def tag : Scan Unit := do
  let start ← mark
  need 2
  let (handle, suffix) ←
    if (← look 1) == '<' then do
      skipMany 2
      let suffix ← tagUri start "" false
      if (← current) ≠ '>' then fail .noTagClose start
      skip
      pure ("", suffix)
    else do
      let handle ← tagHandle false start
      if 1 < handle.length ∧ handle.endsWith "!" then
        pure (handle, ← tagUri start "" false)
      else
        let suffix ← tagUri start (String.ofList handle.toList.tail) true
        if suffix.isEmpty then pure ("", "!") else pure ("!", suffix)
  if !endsWord (← next) then fail .noBlankOrBreak start
  push (.tag handle suffix) start.line

/-! ## Directives -/

/-- A number of a version has at most so many digits. -/
def versionDigits : Nat := 2

/-- A number of a version. -/
def versionNumber (start : Mark) : Scan Nat := do
  let (value, count) ← loop (0, 0) fun (value, count) => do
    let c ← next
    if c.isDigit then
      if versionDigits ≤ count then fail .longVersion start
      skip
      return .yield (value * 10 + (c.toNat - '0'.toNat), count + 1)
    else return .done (value, count)
  if count = 0 then fail .noVersion start
  return value

/-- A version. -/
def version (start : Mark) : Scan Lexeme := do
  skipWhile isBlank
  let major ← versionNumber start
  if (← current) ≠ '.' then fail .noVersionPoint start
  skip
  return .versionDirective major (← versionNumber start)

/-- A handle for tags, and what it stands for. -/
def tagDefinition (start : Mark) : Scan Lexeme := do
  skipWhile isBlank
  let handle ← tagHandle true start
  if !isBlank (← next) then fail .noBlank start
  skipWhile isBlank
  let uri ← tagUri start "" false
  if !endsWord (← next) then fail .noBlankOrBreak start
  return .tagDirective handle uri

/-- A directive, up to the end of its line. -/
def directive : Scan Unit := do
  let start ← mark
  skip
  let name ← takeWhile isName ""
  if name.isEmpty then fail .noDirectiveName start
  if !endsWord (← current) then fail .directiveCharacter start
  let lexeme ←
    if name == "YAML" then version start
    else if name == "TAG" then tagDefinition start
    else fail .unknownDirective start
  finishLine start
  push lexeme start.line

end ValueGrammar.Yaml.Scan
