import ValueGrammar.Token

/-!
# `ValueGrammar.Token.Scan` — breaking CSS text into tokens

`Token.scan` splits a text into tokens whose values join to the text again. Each kind of lexeme has
a measure: a function from the characters ahead to how many of them the lexeme takes. A measure
that may fail answers `none`, and the first kind that does not fail wins; a character nothing
starts with is a delimiter of its own.

Lexemes that hold escape sequences are measured in one pass over the characters, with a counter of
the characters that still belong to the last escape.

## Contents
- `Scan.escape?`, `Scan.nameTail`, `Scan.ident?`, `Scan.number?`: parts of lexemes.
- `Scan.numeric?`, `Scan.string`, `Scan.identLike?`, `Scan.unicodeRange?`, …: whole lexemes.
- `Scan.lexeme`: the kind and the length of the next token.
- `Token.scanChars`, `Token.scan`.
-/

namespace ValueGrammar

namespace Scan

/-- White space inside CSS text. -/
def isSpace (c : Char) : Bool :=
  c == ' ' || c == '\t' || c == '\n' || c == '\r' || c == '\x0c'

/-- A line break. -/
def isNewline (c : Char) : Bool := c == '\n' || c == '\r' || c == '\x0c'

/-- A hexadecimal digit. -/
def isHexDigit (c : Char) : Bool :=
  c.isDigit || ('a' ≤ c && c ≤ 'f') || ('A' ≤ c && c ≤ 'F')

/-- A character a name may start with. -/
def isNameStart (c : Char) : Bool := c.isAlpha || c == '_' || 0x80 ≤ c.toNat

/-- A character a name may go on with. -/
def isName (c : Char) : Bool := isNameStart c || c.isDigit || c == '-'

/-- How many leading characters satisfy `p`. -/
def run (p : Char → Bool) (cs : List Char) : Nat := (cs.takeWhile p).length

/-- How many characters after a backslash make up an escape: one to six hexadecimal digits and a
white space after them, or any one character that is no line break. -/
def escape? : List Char → Option Nat
  | [] => none
  | c :: r =>
    if isNewline c then none
    else if isHexDigit c then
      let n := min 6 (run isHexDigit (c :: r))
      match (c :: r).drop n with
      | d :: _ => some (if isSpace d then n + 1 else n)
      | [] => some n
    else some 1

/-- Name characters and escapes. The counter tells how many of the next characters belong to an
escape already begun. -/
def nameTail : Nat → List Char → Nat
  | _, [] => 0
  | k + 1, _ :: r => nameTail k r + 1
  | 0, c :: r =>
    if isName c then nameTail 0 r + 1
    else if c == '\\' then
      match escape? r with
      | some n => nameTail n r + 1
      | none => 0
    else 0

/-- A name character or an escape starts here. -/
def startsName : List Char → Bool
  | [] => false
  | c :: r => isName c || (c == '\\' && (escape? r).isSome)

/-- A name that does not start with a digit or a dash. -/
def bareIdent? : List Char → Option Nat
  | [] => none
  | c :: r =>
    if isNameStart c || (c == '\\' && (escape? r).isSome) then some (nameTail 0 (c :: r)) else none

/-- An identifier: a name that starts with at most one dash. -/
def ident? : List Char → Option Nat
  | '-' :: r => (bareIdent? r).map (· + 1)
  | cs => bareIdent? cs

/-- The sign of a number, if there is one. -/
def sign : List Char → Nat
  | '+' :: _ => 1
  | '-' :: _ => 1
  | _ => 0

/-- An exponent, or nothing. -/
def exponent : List Char → Nat
  | e :: r =>
    if e == 'e' || e == 'E' then
      let s := sign r
      match run Char.isDigit (r.drop s) with
      | 0 => 0
      | d => 1 + s + d
    else 0
  | [] => 0

/-- A number. A point needs a digit after it; without one it is left out, and so is an exponent. -/
def number? (cs : List Char) : Option Nat :=
  let s := sign cs
  let whole := run Char.isDigit (cs.drop s)
  let n := s + whole
  match cs.drop n with
  | '.' :: r =>
    match run Char.isDigit r with
    | 0 => if whole == 0 then none else some n
    | d => some (n + 1 + d + exponent (r.drop d))
  | r => if whole == 0 then none else some (n + exponent r)

/-- A number, a percentage or a dimension. -/
def numeric? (cs : List Char) : Option (TokenKind × Nat) :=
  (number? cs).map fun n =>
    match cs.drop n with
    | '%' :: _ => (.percentage, n + 1)
    | r =>
      match ident? r with
      | some d => (.dimension, n + d)
      | none => (.number, n)

/-- How many characters after a backslash in a string belong to it: an escape, or a line break. -/
def stringEscape (cs : List Char) : Nat :=
  match escape? cs with
  | some n => n
  | none =>
    match cs with
    | '\r' :: '\n' :: _ => 2
    | _ :: _ => 1
    | [] => 0

/-- The rest of a string after its opening quote, up to the closing one or the end of the text. A
line break cuts the string off and makes it a bad one. -/
def string (quote : Char) : Nat → List Char → TokenKind × Nat
  | _, [] => (.string, 0)
  | k + 1, _ :: r =>
    let (kind, n) := string quote k r
    (kind, n + 1)
  | 0, c :: r =>
    if c == quote then (.string, 1)
    else if isNewline c then (.badString, 1)
    else if c == '\\' then
      let (kind, n) := string quote (stringEscape r) r
      (kind, n + 1)
    else
      let (kind, n) := string quote 0 r
      (kind, n + 1)

/-- The rest of a bad url: up to a closing parenthesis, or the end of the text. -/
def badUrl : Nat → List Char → Nat
  | _, [] => 0
  | k + 1, _ :: r => badUrl k r + 1
  | 0, c :: r =>
    if c == ')' then 1
    else if c == '\\' then badUrl ((escape? r).getD 0) r + 1
    else badUrl 0 r + 1

/-- A character that cannot stand unescaped in a url without quotes. -/
def endsBareUrl (c : Char) : Bool :=
  c == '"' || c == '\'' || c == '(' || c == '\\' || c == ' ' || c.toNat ≤ 0x1f || c.toNat == 0x7f

/-- A url without quotes: its length, and whether it ended well, at a closing parenthesis or the end
of the text. -/
def bareUrl : Nat → List Char → Nat × Bool
  | _, [] => (0, true)
  | k + 1, _ :: r =>
    let (n, ok) := bareUrl k r
    (n + 1, ok)
  | 0, c :: r =>
    if c == ')' then (0, true)
    else if endsBareUrl c then
      match if c == '\\' then escape? r else none with
      | some e =>
        let (n, ok) := bareUrl e r
        (n + 1, ok)
      | none => (0, false)
    else
      let (n, ok) := bareUrl 0 r
      (n + 1, ok)

/-- The end of a url: white space, then a closing parenthesis or the end of the text. -/
def urlEnd (cs : List Char) : TokenKind × Nat :=
  let s := run isSpace cs
  match cs.drop s with
  | [] => (.url, s)
  | ')' :: _ => (.url, s + 1)
  | r => (.badUrl, s + badUrl 0 r)

/-- What follows `url(`. -/
def urlBody (cs : List Char) : TokenKind × Nat :=
  let s := run isSpace cs
  let body := cs.drop s
  let after (n : Nat) : TokenKind × Nat :=
    let (kind, e) := urlEnd (body.drop n)
    (kind, s + n + e)
  let bad (n : Nat) : TokenKind × Nat := (.badUrl, s + n + badUrl 0 (body.drop n))
  let bare : TokenKind × Nat :=
    let (n, ok) := bareUrl 0 body
    if ok then after n
    else
      match body.drop n with
      | c :: _ => if isSpace c then after (n + 1) else bad n
      | [] => bad n
  match body with
  | q :: r =>
    if q == '"' || q == '\'' then
      let (kind, n) := string q 0 r
      if kind == .badString then bad (n + 1) else after (n + 1)
    else bare
  | [] => bare

/-- Is the name `url`, backslashes apart and in any case? -/
def isUrlName (name : List Char) : Bool :=
  (name.filter (· != '\\')).map Char.toLower == "url".toList

/-- An identifier, a function or a url. -/
def identLike? (cs : List Char) : Option (TokenKind × Nat) :=
  (ident? cs).map fun n =>
    match cs.drop n with
    | '(' :: r =>
      if isUrlName (cs.take n) then
        let (kind, u) := urlBody r
        (kind, n + 1 + u)
      else (.function, n + 1)
    | _ => (.ident, n)

/-- A unicode range after its `u`: `+`, then one to six digits or question marks, or two numbers
with a dash between them, the first of at most six digits. -/
def unicodeRange? : List Char → Option Nat
  | '+' :: r =>
    let k := run isHexDigit r
    let inBounds (n : Nat) : Bool := 0 < n && n ≤ 6
    match r.drop k with
    | '-' :: r' =>
      let m := run isHexDigit r'
      if inBounds k && inBounds m then some (k + m + 2) else none
    | r' =>
      let q := run (· == '?') r'
      if inBounds (k + q) then some (k + q + 1) else none
  | _ => none

/-- The rest of a comment after its opening, up to `*/` or the end of the text. -/
def comment : List Char → Nat
  | [] => 0
  | '*' :: '/' :: _ => 2
  | _ :: r => comment r + 1

/-- The length of `s` if the text starts with it. -/
def literal? (s : String) (cs : List Char) : Option Nat :=
  if s.toList.isPrefixOf cs then some s.toList.length else none

/-- The lexemes that start with a dash. -/
def dashed? (cs : List Char) : Option (TokenKind × Nat) :=
  numeric? cs <|> identLike? cs <|> (literal? "-->" cs).map (.cdc, ·) <|>
    match cs with
    | '-' :: '-' :: r => (ident? ('-' :: r)).map fun n => (.ident, n + 1)
    | _ => none

/-- A lexeme of one fixed spelling. -/
def fixed? (kind : TokenKind) (s : String) (cs : List Char) : Option (TokenKind × Nat) :=
  (literal? s cs).map (kind, ·)

/-- The lexeme that starts with the character `c` followed by `r`, if there is one. -/
def lexeme? (c : Char) (r : List Char) : Option (TokenKind × Nat) :=
  let cs := c :: r
  if isSpace c then some (.whitespace, run isSpace cs)
  else match c with
    | ':' => some (.colon, 1)
    | ';' => some (.semicolon, 1)
    | ',' => some (.comma, 1)
    | '(' => some (.leftParen, 1)
    | ')' => some (.rightParen, 1)
    | '[' => some (.leftBracket, 1)
    | ']' => some (.rightBracket, 1)
    | '{' => some (.leftBrace, 1)
    | '}' => some (.rightBrace, 1)
    | '#' => if startsName r then some (.hash, nameTail 0 r + 1) else none
    | '"' =>
      let (kind, n) := string '"' 0 r
      some (kind, n + 1)
    | '\'' =>
      let (kind, n) := string '\'' 0 r
      some (kind, n + 1)
    | '.' => numeric? cs
    | '+' => numeric? cs
    | '-' => dashed? cs
    | '@' => (ident? r).map fun n => (.atKeyword, n + 1)
    | '$' => fixed? .suffixMatch "$=" cs
    | '*' => fixed? .substringMatch "*=" cs
    | '^' => fixed? .prefixMatch "^=" cs
    | '~' => fixed? .includeMatch "~=" cs
    | '/' =>
      match r with
      | '*' :: r' => some (.comment, comment r' + 2)
      | _ => none
    | '<' => fixed? .cdo "<!--" cs
    | '\\' => identLike? cs
    | 'u' => (unicodeRange? r).map (fun n => (.unicodeRange, n + 1)) <|> identLike? cs
    | 'U' => (unicodeRange? r).map (fun n => (.unicodeRange, n + 1)) <|> identLike? cs
    | '|' => fixed? .dashMatch "|=" cs <|> fixed? .column "||" cs
    | _ => numeric? cs <|> identLike? cs

/-- The kind of the next token and how many characters it takes after the first one. -/
def lexeme (c : Char) (r : List Char) : TokenKind × Nat :=
  match lexeme? c r with
  | some (kind, n) => (kind, n - 1)
  | none => (.delim, 0)

end Scan

namespace Token

/-- The tokens of a list of characters. -/
def scanChars : List Char → List Token
  | [] => []
  | c :: r =>
    let (kind, n) := Scan.lexeme c r
    { kind, value := String.ofList (c :: r.take n) } :: scanChars (r.drop n)
termination_by cs => cs.length
decreasing_by rw [List.length_drop, List.length_cons]; omega

/-- The tokens of a text. Functions keep their opening parenthesis and at-keywords their `@`. -/
def scan (s : String) : List Token := scanChars s.toList

end Token

end ValueGrammar
