import ValueGrammar.Text.Quoted

/-!
# `ValueGrammar.Token` — the lexical units of a CSS value

## Contents
- `TokenKind`: the kinds of tokens, their names and their numbers.
- `Token`: a kind, the exact source text, and an optional mark of the caller.
- `Token.isSignificant`: whitespace and comments are skipped by default.
-/

namespace ValueGrammar

/-- The kinds of tokens of CSS. -/
inductive TokenKind where
  | unknown
  | ident
  | function
  | atKeyword
  | hash
  | string
  | badString
  | url
  | badUrl
  | delim
  | number
  | percentage
  | dimension
  | unicodeRange
  | includeMatch
  | dashMatch
  | prefixMatch
  | suffixMatch
  | substringMatch
  | column
  | whitespace
  | cdo
  | cdc
  | colon
  | semicolon
  | comma
  | leftBracket
  | rightBracket
  | leftParen
  | rightParen
  | leftBrace
  | rightBrace
  | comment
  deriving Repr, DecidableEq, Inhabited

namespace TokenKind

/-- Every kind, in the order of their numbers. -/
def all : List TokenKind := [
  .unknown, .ident, .function, .atKeyword, .hash, .string, .badString, .url, .badUrl, .delim,
  .number, .percentage, .dimension, .unicodeRange, .includeMatch, .dashMatch, .prefixMatch,
  .suffixMatch, .substringMatch, .column, .whitespace, .cdo, .cdc, .colon, .semicolon, .comma,
  .leftBracket, .rightBracket, .leftParen, .rightParen, .leftBrace, .rightBrace, .comment]

/-- The name of a kind. -/
def name : TokenKind → String
  | .unknown => "unknown"
  | .ident => "ident"
  | .function => "function"
  | .atKeyword => "at-keyword"
  | .hash => "hash"
  | .string => "string"
  | .badString => "bad-string"
  | .url => "url"
  | .badUrl => "bad-url"
  | .delim => "delim"
  | .number => "number"
  | .percentage => "percentage"
  | .dimension => "dimension"
  | .unicodeRange => "unicode-range"
  | .includeMatch => "include-match"
  | .dashMatch => "dash-match"
  | .prefixMatch => "prefix-match"
  | .suffixMatch => "suffix-match"
  | .substringMatch => "substring-match"
  | .column => "column"
  | .whitespace => "whitespace"
  | .cdo => "cdo"
  | .cdc => "cdc"
  | .colon => "colon"
  | .semicolon => "semicolon"
  | .comma => "comma"
  | .leftBracket => "["
  | .rightBracket => "]"
  | .leftParen => "("
  | .rightParen => ")"
  | .leftBrace => "\x7b"
  | .rightBrace => "\x7d"
  | .comment => "comment"

/-- The kind with the given name. -/
def ofName? (s : String) : Option TokenKind := all.find? (·.name == s)

/-- The name of the kind with the given number, which need not exist. -/
def nameOfCode (code : Int) : String :=
  let known := if code < 0 then none else all[code.toNat]?
  match known with
  | some kind => kind.name
  | none => "TokenType(" ++ toString code ++ ")"

end TokenKind

/-- A lexical unit: its kind, its exact source text, and what it was read from if the caller keeps
track of that. -/
structure Token where
  kind : TokenKind
  value : String
  origin : Option String := none
  deriving Repr, DecidableEq, Inhabited

namespace Token

/-- The kind and the quoted value. -/
def debugText (t : Token) : String := t.kind.name ++ "(" ++ Text.quote t.value ++ ")"

/-- Neither whitespace nor a comment. -/
def isSignificant (t : Token) : Bool := t.kind != .whitespace && t.kind != .comment

/-- The source text of a list of tokens. -/
def joined (ts : List Token) : String := String.join (ts.map (·.value))

end Token

end ValueGrammar
