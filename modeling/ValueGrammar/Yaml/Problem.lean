/-!
# `ValueGrammar.Yaml.Problem` — why a text is not a document

## Contents
- `Cause`, `Cause.text`: what is wrong, and its wording.
- `Problem`, `Problem.text`: a cause and the line it is reported at.
-/

namespace ValueGrammar.Yaml

/-- What is wrong with a text. -/
inductive Cause where
  /-- the bytes cannot be had -/
  | input (message : String)
  /-- bytes that are no characters -/
  | leadingOctet
  | trailingOctet
  | octetCount
  | cutOctets
  | invalidCharacter
  | cutUnit
  | cutPair
  | lowSurrogate
  | noLowSurrogate
  /-- characters that documents do not hold -/
  | controlCharacter
  /-- marks in the wrong place -/
  | noToken
  | entryNotAllowed
  | keyNotAllowed
  | valueNotAllowed
  | noColon
  | depth (limit : Nat)
  /-- scalars -/
  | documentMark
  | openQuote
  | escape
  | hexDigits
  | escapedCharacter
  | tabIndent
  | tabBlockIndent
  | zeroIndent
  | noLineEnd
  /-- anchors, tags and directives -/
  | noName
  | noTagMark
  | noTagUri
  | noTagClose
  | noEscapedOctet
  | escapedLeadingOctet
  | escapedTrailingOctet
  | noDirectiveName
  | directiveCharacter
  | unknownDirective
  | noVersion
  | noVersionPoint
  | longVersion
  | noBlank
  | noBlankOrBreak
  | repeatedVersion
  | otherVersion
  | repeatedTag
  | undefinedTag
  /-- the structure of a document -/
  | noDocumentStart
  | noContent
  | noEntry
  | noKey
  | noSequenceComma
  | noMappingComma
  | unknownAnchor (name : String)
  /-- what nodes stand for -/
  | containsItself (name : String)
  | excessiveAliases
  | mergeValue
  | base64
  | otherType (found text wanted : String)
  deriving Repr, DecidableEq, Inhabited

namespace Cause

/-- The message for people. -/
def text : Cause → String
  | .input m => "input error: " ++ m
  | .leadingOctet => "invalid leading UTF-8 octet"
  | .trailingOctet => "invalid trailing UTF-8 octet"
  | .octetCount => "invalid length of a UTF-8 sequence"
  | .cutOctets => "incomplete UTF-8 octet sequence"
  | .invalidCharacter => "invalid Unicode character"
  | .cutUnit => "incomplete UTF-16 character"
  | .cutPair => "incomplete UTF-16 surrogate pair"
  | .lowSurrogate => "unexpected low surrogate area"
  | .noLowSurrogate => "expected low surrogate area"
  | .controlCharacter => "control characters are not allowed"
  | .noToken => "found character that cannot start any token"
  | .entryNotAllowed => "block sequence entries are not allowed in this context"
  | .keyNotAllowed => "mapping keys are not allowed in this context"
  | .valueNotAllowed => "mapping values are not allowed in this context"
  | .noColon => "could not find expected ':'"
  | .depth limit => "exceeded max depth of " ++ toString limit
  | .documentMark => "found unexpected document indicator"
  | .openQuote => "found unexpected end of stream"
  | .escape => "found unknown escape character"
  | .hexDigits => "did not find expected hexdecimal number"
  | .escapedCharacter => "found invalid Unicode character escape code"
  | .tabIndent => "found a tab character that violates indentation"
  | .tabBlockIndent => "found a tab character where an indentation space is expected"
  | .zeroIndent => "found an indentation indicator equal to 0"
  | .noLineEnd => "did not find expected comment or line break"
  | .noName => "did not find expected alphabetic or numeric character"
  | .noTagMark => "did not find expected '!'"
  | .noTagUri => "did not find expected tag URI"
  | .noTagClose => "did not find the expected '>'"
  | .noEscapedOctet => "did not find URI escaped octet"
  | .escapedLeadingOctet => "found an incorrect leading UTF-8 octet"
  | .escapedTrailingOctet => "found an incorrect trailing UTF-8 octet"
  | .noDirectiveName => "could not find expected directive name"
  | .directiveCharacter => "found unexpected non-alphabetical character"
  | .unknownDirective => "found unknown directive name"
  | .noVersion => "did not find expected version number"
  | .noVersionPoint => "did not find expected digit or '.' character"
  | .longVersion => "found extremely long version number"
  | .noBlank => "did not find expected whitespace"
  | .noBlankOrBreak => "did not find expected whitespace or line break"
  | .repeatedVersion => "found duplicate %YAML directive"
  | .otherVersion => "found incompatible YAML document"
  | .repeatedTag => "found duplicate %TAG directive"
  | .undefinedTag => "found undefined tag handle"
  | .noDocumentStart => "did not find expected <document start>"
  | .noContent => "did not find expected node content"
  | .noEntry => "did not find expected '-' indicator"
  | .noKey => "did not find expected key"
  | .noSequenceComma => "did not find expected ',' or ']'"
  | .noMappingComma => "did not find expected ',' or '\x7d'"
  | .unknownAnchor name => "unknown anchor '" ++ name ++ "' referenced"
  | .containsItself name => "anchor '" ++ name ++ "' value contains itself"
  | .excessiveAliases => "document contains excessive aliasing"
  | .mergeValue => "map merge requires map or sequence of maps as the value"
  | .base64 => "!!binary value contains invalid base64 data"
  | .otherType found text wanted =>
    "cannot decode " ++ found ++ " `" ++ text ++ "` as a " ++ wanted

end Cause

/-- A cause, and the line it is reported at; there is no line 0. -/
structure Problem where
  cause : Cause
  line : Nat := 0
  deriving Repr, DecidableEq, Inhabited

namespace Problem

/-- A problem that is reported at no line. -/
def general (cause : Cause) : Problem := ⟨cause, 0⟩

/-- A problem of the marks in a text. Lines are counted from 0 here, and one in the first line has
none: it is reported where its context starts, or else where it was found. -/
def ofText (cause : Cause) (context found : Nat) : Problem :=
  ⟨cause, if context ≠ 0 then context + 1 else if found ≠ 0 then found + 1 else 0⟩

/-- A problem of the structure of a document: it is reported at the line before. -/
def ofStructure (cause : Cause) (context found : Nat) : Problem :=
  ⟨cause, if context ≠ 0 then context else found⟩

/-- The message for people. -/
def text (p : Problem) : String :=
  (if p.line = 0 then "" else "line " ++ toString p.line ++ ": ") ++ p.cause.text

end Problem

end ValueGrammar.Yaml
