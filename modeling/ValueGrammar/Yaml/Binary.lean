import ValueGrammar.Text.Utf8

/-!
# `ValueGrammar.Yaml.Binary` — bytes written as a text

Three bytes are written as four characters; the last ones are padded with `=`. Line breaks in
between do not count.

## Contents
- `base64Value?`: what a character stands for.
- `base64Text?`: the text that the bytes make.
-/

namespace ValueGrammar.Yaml

/-- What a character of the alphabet stands for. -/
def base64Value? (c : Char) : Option Nat :=
  if 'A' ≤ c ∧ c ≤ 'Z' then some (c.toNat - 65)
  else if 'a' ≤ c ∧ c ≤ 'z' then some (c.toNat - 71)
  else if c.isDigit then some (c.toNat + 4)
  else if c = '+' then some 62
  else if c = '/' then some 63
  else none

/-- The first `n` of the bytes that four values make. -/
def base64Group (n : Nat) (values : List Nat) : List UInt8 :=
  let v := values.foldl (fun v d => v * 64 + d) 0
  [UInt8.ofNat (v / 65536), UInt8.ofNat (v / 256), UInt8.ofNat v].take n

/-- The bytes that characters stand for. -/
def base64Bytes? : List Char → Option (List UInt8)
  | [] => some []
  | [a, b, '=', '='] => do
    return base64Group 1 [← base64Value? a, ← base64Value? b, 0, 0]
  | [a, b, c, '='] => do
    return base64Group 2 [← base64Value? a, ← base64Value? b, ← base64Value? c, 0]
  | a :: b :: c :: d :: rest => do
    let values := [← base64Value? a, ← base64Value? b, ← base64Value? c, ← base64Value? d]
    return base64Group 3 values ++ (← base64Bytes? rest)
  | _ => none

/-- The text that the written bytes make. -/
def base64Text? (text : String) : Option String :=
  let cs := text.toList.filter fun c => c != '\n' && c != '\r'
  (base64Bytes? cs).map Text.ofBytesLossy

end ValueGrammar.Yaml
