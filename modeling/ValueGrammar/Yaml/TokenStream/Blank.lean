import ValueGrammar.Yaml.TokenStream

/-!
# `ValueGrammar.Yaml.TokenStream.Blank` — what stands between tokens

Blanks, line breaks and comments. A comment goes on in the comments below it, whatever blanks there
are between them; so it does not matter that tabs may not indent anything else. Only a line break of
several bytes parts two comments.

## Contents
- `Scan.comments`: comments in lines of their own.
- `Scan.lineComment`: a comment after a token.
- `Scan.toNextToken`.
-/

namespace ValueGrammar.Yaml.Scan

/-- How far ahead a comment is looked for. -/
def commentDistance : Nat := 512

/-- Where the next comment starts, if at most `limit` characters of a class stand before it. -/
def commentAhead (p : Char → Bool) : Nat → Nat → Scan (Option Nat)
  | 0, _ => pure none
  | limit + 1, n => do
    need (n + 1)
    let c ← look n
    if c == '#' then return some n
    else if p c then commentAhead p limit (n + 1)
    else return none

/-- Passes over everything up to an index, and over what is left of the line there. -/
def skipComment (start : Nat) : Scan Unit :=
  loop () fun _ => do
    if endsLine (← next) then
      if start ≤ (← mark).index then return .done ()
      nextLine
    else skip
    return .yield ()

/-- The blanks and breaks that a comment goes on after. A break that is written with several bytes
is none of them. -/
def joinsComments (c : Char) : Bool := isBlank c || c == '\n' || c == '\r'

/-- Passes over a comment and the comments below it, up to the end of a line. -/
def comments : Scan Unit := do
  skipComment (← mark).index
  loop () fun _ => do
    if !joinsComments (← current) then return .done ()
    match ← commentAhead joinsComments (commentDistance - 1) 1 with
    | some n =>
      skipComment ((← mark).index + n)
      return .yield ()
    | none => return .done ()

/-- Passes over a comment after a token, unless the token ended with its line. -/
def lineComment : Scan Unit := do
  if (← get).newlines = 0 then
    match ← commentAhead isBlank commentDistance 0 with
    | some n => skipComment ((← mark).index + n)
    | none => pure ()

/-- May the character be passed over between tokens? A tab may not where a key may start. -/
def isGap (c : Char) : Scan Bool := do
  let s ← get
  return c == ' ' || (c == '\t' && (s.flow ≠ 0 || !s.keyAllowed))

/-- Goes on to the next token. In block context a key may start in a new line. -/
def toNextToken : Scan Unit :=
  loop () fun _ => do
    need 3
    if (← get).marked ∧ (← mark).column = 0 then skip
    loop () fun _ => do
      if ← isGap (← next) then
        skip
        return .yield ()
      else return .done ()
    if (← current) == '#' then comments
    if isBreak (← current) then
      nextLine
      if (← get).flow = 0 then allowKey true
      return .yield ()
    else return .done ()

end ValueGrammar.Yaml.Scan
