/-!
# `ValueGrammar.Text.Blank` — white space around a text

The white space characters of all scripts, and cutting them off both ends of a text. The syntax
readers of this library know narrower sets of their own; this one is for text typed by people.
-/

namespace ValueGrammar.Text

/-- White space of any script. -/
def isBlank (c : Char) : Bool :=
  let n := c.toNat
  (0x09 ≤ n && n ≤ 0x0d) || n == 0x20 || n == 0x85 || n == 0xa0 || n == 0x1680 ||
    (0x2000 ≤ n && n ≤ 0x200a) || n == 0x2028 || n == 0x2029 || n == 0x202f || n == 0x205f ||
    n == 0x3000

/-- The text without the white space at its two ends. -/
def trim (s : String) : String :=
  String.ofList ((s.toList.dropWhile isBlank).reverse.dropWhile isBlank).reverse

/-- Repetition of a text. -/
def times (n : Nat) (s : String) : String := String.join (List.replicate n s)

end ValueGrammar.Text
