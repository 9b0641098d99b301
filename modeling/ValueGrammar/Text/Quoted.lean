import ValueGrammar.Text.Printable

/-!
# `ValueGrammar.Text.Quoted` — texts shown between quotes

How a token value or a literal is shown to a reader.

## Contents
- `quote`: between double quotes, with an escape sequence for every character that would not show.
- `escapeLiteral`: the shorter escape used in outlines, without quotes around it.
- `hexDigits`: a number in lower case hexadecimal, padded to a width.
-/

namespace ValueGrammar.Text

/-- `n` in lower case hexadecimal with at least `width` digits. -/
def hexDigits (width n : Nat) : String :=
  let digits := Nat.toDigits 16 n
  String.ofList (List.replicate (width - digits.length) '0' ++ digits)

/-- One character as it appears between double quotes. -/
def quoteChar (c : Char) : String :=
  if c == '"' then "\\\""
  else if c == '\\' then "\\\\"
  else if isPrintable c then c.toString
  else match c.toNat with
    | 0x07 => "\\a"
    | 0x08 => "\\b"
    | 0x09 => "\\t"
    | 0x0a => "\\n"
    | 0x0b => "\\v"
    | 0x0c => "\\f"
    | 0x0d => "\\r"
    | n =>
      if n < 0x80 then "\\x" ++ hexDigits 2 n
      else if n < 0x10000 then "\\u" ++ hexDigits 4 n
      else "\\U" ++ hexDigits 8 n

/-- The text between double quotes; what does not show as itself is escaped. -/
def quote (s : String) : String :=
  "\"" ++ String.join (s.toList.map quoteChar) ++ "\""

/-- One character of a literal in an outline. -/
def escapeLiteralChar (c : Char) : String :=
  match c with
  | '"' => "\\\""
  | '\\' => "\\\\"
  | '\n' => "\\n"
  | '\r' => "\\r"
  | '\t' => "\\t"
  | _ => c.toString

/-- A literal as outlines show it: quotes, backslashes and line breaks are escaped. -/
def escapeLiteral (s : String) : String := String.join (s.toList.map escapeLiteralChar)

end ValueGrammar.Text
