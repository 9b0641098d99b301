import ValueGrammar.Range
import ValueGrammar.Text.Blank

/-!
# `ValueGrammar.Grammar` — the value definition syntax

A grammar says which token lists are values of a property or a type, in the notation of the CSS
specifications: `<length> | auto | [ <percentage> && left ]#`.

## Contents
- `Combinator`: how the terms of a group are joined.
- `Grammar`: the syntax trees of the notation.
- `Grammar.text`: a grammar in its own notation.
- `Grammar.debugText`: the constructor of every node.
- `Grammar.unquoted`, `Grammar.unquotedSize`: what a string literal stands for, and its bytes.
-/

namespace ValueGrammar

/-- How the terms of a group are joined. A group built by hand may carry a number that stands for
none of the four ways. -/
inductive Combinator where
  /-- every term, in the given order -/
  | juxtapose
  /-- every term, in any order -/
  | all
  /-- one or more of the terms, in any order -/
  | any
  /-- exactly one of the terms -/
  | one
  | other (code : Int)
  deriving Repr, DecidableEq, Inhabited

namespace Combinator

/-- The sign between two terms. -/
def text : Combinator → String
  | .juxtapose => " "
  | .all => "&&"
  | .any => "||"
  | .one => "|"
  | .other code => "Combinator(" ++ toString code ++ ")"

/-- The combinator with the given number. -/
def ofCode (code : Int) : Combinator :=
  if code == 0 then .juxtapose
  else if code == 1 then .all
  else if code == 2 then .any
  else if code == 3 then .one
  else .other code

/-- What is written between two terms. -/
def separator (c : Combinator) : String :=
  match c with
  | .juxtapose => " "
  | _ => " " ++ c.text ++ " "

end Combinator

/-- A grammar of the value definition syntax. -/
inductive Grammar where
  /-- terms joined by a combinator; `bracketed` if written within brackets, `nonEmpty` if they must
  not match nothing -/
  | group (combinator : Combinator) (terms : List Grammar) (bracketed nonEmpty : Bool)
  /-- repetitions of a term, without an upper limit if `max` is `none`; `separated` if a
  comma stands between neighbours -/
  | multiplier (term : Grammar) (min : Int) (max : Option Int) (separated : Bool)
  | keyword (name : String)
  | atKeyword (name : String)
  /-- the name and opening parenthesis of a function; the closing one is a token term -/
  | function (name : String)
  | type (name : String) (range : Option Range)
  | property (name : String)
  | token (value : String)
  /-- a string literal with the quotes it was written with -/
  | string (value : String)
  | comma
  deriving Repr, Inhabited

namespace Grammar

/-- The sign of a multiplier. A missing upper limit counts as minus one when the two limits are
compared. -/
def multiplierText (min : Int) (max : Option Int) (separated : Bool) : String :=
  let mark := if separated then "#" else ""
  let braces (s : String) : String := mark ++ "\x7b" ++ s ++ "\x7d"
  if separated && min == 1 && max == none then "#"
  else if !separated && min == 0 && max == none then "*"
  else if !separated && min == 1 && max == none then "+"
  else if !separated && min == 0 && max == some 1 then "?"
  else if min == max.getD (-1) then braces (toString min)
  else match max with
    | none => braces (toString min ++ ",")
    | some n => braces (toString min ++ "," ++ toString n)

/-- A reference to a type. -/
def typeText (name : String) (range : Option Range) : String :=
  match range with
  | some r => "<" ++ name ++ " " ++ r.text ++ ">"
  | none => "<" ++ name ++ ">"

mutual

/-- The grammar in the notation it was read from. -/
def text : Grammar → String
  | .group c terms bracketed nonEmpty =>
    let body := String.intercalate c.separator (texts terms)
    if bracketed then "[ " ++ body ++ " ]" ++ (if nonEmpty then "!" else "") else body
  | .multiplier t min max separated => t.text ++ multiplierText min max separated
  | .keyword name => name
  | .atKeyword name => "@" ++ name
  | .function name => name ++ "("
  | .type name range => typeText name range
  | .property name => "<'" ++ name ++ "'>"
  | .token value => value
  | .string value => value
  | .comma => ","

/-- The texts of several grammars. -/
def texts : List Grammar → List String
  | [] => []
  | t :: ts => t.text :: texts ts

end

mutual

/-- The constructors of a grammar, for looking at how it was read. -/
def debugText : Grammar → String
  | .group c terms _ _ =>
    "Group[" ++ c.text ++ "](" ++ String.intercalate ", " (debugTexts terms) ++ ")"
  | .multiplier t min max separated =>
    "Multiplier[" ++ multiplierText min max separated ++ "](" ++ t.debugText ++ ")"
  | .keyword name => "Keyword(" ++ name ++ ")"
  | .atKeyword name => "AtKeyword(" ++ name ++ ")"
  | .function name => "Function(" ++ name ++ ")"
  | .type name _ => "Type(" ++ name ++ ")"
  | .property name => "Property(" ++ name ++ ")"
  | .token value => "Token(" ++ value ++ ")"
  | .string value => "String(" ++ value ++ ")"
  | .comma => "Comma"

/-- The constructors of several grammars. -/
def debugTexts : List Grammar → List String
  | [] => []
  | t :: ts => t.debugText :: debugTexts ts

end

@[simp] theorem texts_eq_map (ts : List Grammar) : texts ts = ts.map text := by
  induction ts with
  | nil => rfl
  | cons t ts ih => simp [texts, ih]

@[simp] theorem debugTexts_eq_map (ts : List Grammar) : debugTexts ts = ts.map debugText := by
  induction ts with
  | nil => rfl
  | cons t ts ih => simp [debugTexts, ih]

/-- Each byte left over from a cut character reads as one replacement character. -/
def replacements (bytes : Nat) : List Char := List.replicate bytes '\ufffd'

/-- The characters without the first and the last byte of their encoding. -/
def withoutEndBytes (cs : List Char) : List Char :=
  match cs with
  | [] => []
  | [c] => if c.utf8Size < 2 then [c] else replacements (c.utf8Size - 2)
  | first :: rest =>
    let last := rest.getLast?.elim 0 Char.utf8Size
    replacements (first.utf8Size - 1) ++ rest.dropLast ++ replacements (last - 1)

/-- Drops the backslash of every escaped single quote. -/
def unescapeQuotes : List Char → List Char
  | '\\' :: '\'' :: r => '\'' :: unescapeQuotes r
  | c :: r => c :: unescapeQuotes r
  | [] => []

/-- The contents of a string literal: what is left without its first and last byte, which are the
quotes, where a single quote may be escaped. -/
def unquoted (value : String) : String :=
  String.ofList (if value.utf8ByteSize < 2 then value.toList
    else unescapeQuotes (withoutEndBytes value.toList))

/-- How many bytes the contents of a string literal have: those of the literal without its first and
last byte and the backslashes of escaped quotes. A byte left over from a cut character counts as the
one byte it is, and not as the replacement character it reads as. -/
def unquotedSize (value : String) : Nat :=
  if value.utf8ByteSize < 2 then value.utf8ByteSize
  else
    let cut := withoutEndBytes value.toList
    value.utf8ByteSize - 2 - (cut.length - (unescapeQuotes cut).length)

end Grammar

end ValueGrammar
