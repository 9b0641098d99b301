import ValueGrammar.Text.Case
import ValueGrammar.Token

/-!
# `ValueGrammar.Stylesheet.Value` — the value of a declaration

The tokens between the colon and the semicolon of a declaration are its value, without the white
space around it and without the annotation `!important`.
-/

namespace ValueGrammar

namespace Token

/-- Drops whitespace and comments at the end. -/
def trimEnd (ts : List Token) : List Token := (ts.reverse.dropWhile (!·.isSignificant)).reverse

/-- Drops whitespace and comments at both ends. -/
def trim (ts : List Token) : List Token := trimEnd (ts.dropWhile (!·.isSignificant))

/-- The tokens before a final `!important`, however many whitespace and comment tokens are around
and inside it; all of them if there is none. -/
def beforeImportant (ts : List Token) : List Token :=
  let trimmed := trimEnd ts
  match trimmed.getLast? with
  | none => trimmed
  | some word =>
    if word.kind == .ident && Text.equalFold word.value "important" then
      let before := trimEnd trimmed.dropLast
      match before.getLast? with
      | none => trimmed
      | some mark => if mark.kind == .delim && mark.value == "!" then before.dropLast else trimmed
    else trimmed

/-- The value of a declaration: its tokens without `!important` and the white space around. -/
def trimImportant (ts : List Token) : List Token := trim (beforeImportant ts)

end Token

end ValueGrammar
