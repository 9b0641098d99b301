/-!
# `ValueGrammar.Yaml.Token` — the tokens of a document

A document is a sequence of tokens. Those that stand for the start and the end of a collection in
block style have no characters of their own: they are told from the indentation.

## Contents
- `Mark`: a place in a text.
- `isBlank`, `isBreak`, `endsLine`, `endsWord`: classes of characters.
- `Lexeme`, `Token`.
-/

namespace ValueGrammar.Yaml

/-- A place in a text: how many characters come before it, in which line it is, and how many
characters come before it there. All three are counted from 0. -/
structure Mark where
  index : Nat := 0
  line : Nat := 0
  column : Nat := 0
  deriving Repr, DecidableEq, Inhabited

/-- What is seen at the end of a text; no document holds it. -/
def endMark : Char := '\x00'

/-- A space or a tab. -/
def isBlank (c : Char) : Bool := c == ' ' || c == '\t'

/-- A line break. -/
def isBreak (c : Char) : Bool :=
  c == '\n' || c == '\r' || c == '\u0085' || c == '\u2028' || c == '\u2029'

/-- A line break, or the end of the text. -/
def endsLine (c : Char) : Bool := isBreak c || c == endMark

/-- A blank, a line break, or the end of the text. -/
def endsWord (c : Char) : Bool := isBlank c || endsLine c

/-- A character of names. -/
def isName (c : Char) : Bool := c.isAlphanum || c == '_' || c == '-'

/-- What a token is. -/
inductive Lexeme where
  | streamEnd
  | versionDirective (major minor : Nat)
  | tagDirective (handle uri : String)
  | documentStart
  | documentEnd
  | blockSequenceStart
  | blockMappingStart
  | blockEnd
  | flowSequenceStart
  | flowSequenceEnd
  | flowMappingStart
  | flowMappingEnd
  | blockEntry
  | flowEntry
  | key
  | value
  | alias (name : String)
  | anchor (name : String)
  | tag (handle suffix : String)
  /-- a text, and whether it stands there without quotes or an indicator of its style -/
  | scalar (text : String) (plain : Bool)
  deriving Repr, DecidableEq, Inhabited

/-- A lexeme, and the line it starts in. -/
structure Token where
  lexeme : Lexeme
  line : Nat
  deriving Repr, DecidableEq, Inhabited

end ValueGrammar.Yaml
