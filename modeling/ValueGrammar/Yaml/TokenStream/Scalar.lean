import ValueGrammar.Yaml.TokenStream

/-!
# `ValueGrammar.Yaml.TokenStream.Scalar` — the texts of a document

A text stands there plainly, between quotes, or in a block of lines. Except in a block that is kept
as it is, a single line break between two words is a space, and of several the first is left out.

## Contents
- `Gap`, `Gap.text`: the blanks and breaks between two words.
- `Scan.plain`: a plain text.
- `Scan.quoted`: a text between quotes.
- `Scan.block`: a text of indented lines.
-/

namespace ValueGrammar.Yaml

/-- What stands between two words: blanks of one line, or a line break and those after it. -/
structure Gap where
  blanks : String := ""
  /-- has a line ended? -/
  broken : Bool := false
  first : String := ""
  more : String := ""
  deriving Repr, DecidableEq, Inhabited

namespace Gap

/-- What is left of a gap in the text. -/
def text (g : Gap) : String :=
  if g.broken then
    if g.first == "\n" then (if g.more.isEmpty then " " else g.more) else g.first ++ g.more
  else g.blanks

end Gap

namespace Scan

/-- Passes over blanks and line breaks; a blank is looked at before it is passed. -/
def gap (check : Gap → Scan Unit) (start : Gap) : Scan Gap :=
  loop start fun g => do
    let c ← next
    if isBlank c then
      check g
      if g.broken then
        skip
        return .yield g
      else return .yield { g with blanks := ← take g.blanks }
    else if isBreak c then
      need 2
      if g.broken then return .yield { g with more := ← takeLine g.more }
      else return .yield { g with blanks := "", first := ← takeLine g.first, broken := true }
    else return .done g

/-! ## Plain texts -/

/-- The marks that part collections in flow style. -/
def isFlowMark (c : Char) : Bool :=
  c == ',' || c == '?' || c == '[' || c == ']' || c == '\x7b' || c == '\x7d'

/-- Does a plain text end at the next character, though no blank stands there? -/
def endsPlain (c : Char) : Scan Bool := do
  return (c == ':' && endsWord (← look 1)) || ((← get).flow ≠ 0 && isFlowMark c)

/-- The words of a plain text. -/
structure Words where
  text : String := ""
  gap : Gap := {}
  deriving Repr, DecidableEq, Inhabited

/-- A word of a plain text, after the gap in front of it. -/
def plainWord (start : Words) : Scan Words :=
  loop start fun w => do
    let c ← current
    if endsWord c || (← endsPlain c) then return .done w
    else
      let text ← take (w.text ++ w.gap.text)
      need 2
      return .yield { text := text }

/-- A plain text. It ends before a comment, a mark, or a line that is not deeper than the collection
around it. -/
def plain : Scan Unit := do
  let start ← mark
  let indent := (← get).indent + 1
  let tabs (g : Gap) : Scan Unit := do
    if g.broken && (← current) == '\t' && (← mark).column < indent then fail .tabIndent start
  let words ← loop ({} : Words) fun w => do
    need 4
    if (← atDocumentMark) || (← current) == '#' then return .done w
    let w ← plainWord w
    let c ← current
    if !(isBlank c || isBreak c) then return .done w
    let w := { w with gap := ← gap tabs w.gap }
    if (← get).flow = 0 ∧ (← mark).column < indent then return .done w
    return .yield w
  push (.scalar words.text true) start.line
  if words.gap.broken then allowKey true

/-! ## Texts between quotes -/

/-- The value of a hexadecimal digit. -/
def hexDigit? (c : Char) : Option Nat :=
  if c.isDigit then some (c.toNat - 48)
  else if 'a' ≤ c ∧ c ≤ 'f' then some (c.toNat - 87)
  else if 'A' ≤ c ∧ c ≤ 'F' then some (c.toNat - 55)
  else none

/-- What a character after a backslash stands for. -/
def escaped? : Char → Option Char
  | '0' => some '\x00'
  | 'a' => some '\x07'
  | 'b' => some '\x08'
  | 't' => some '\t'
  | '\t' => some '\t'
  | 'n' => some '\n'
  | 'v' => some '\x0b'
  | 'f' => some '\x0c'
  | 'r' => some '\r'
  | 'e' => some '\x1b'
  | ' ' => some ' '
  | '"' => some '"'
  | '\'' => some '\''
  | '\\' => some '\\'
  | 'N' => some '\u0085'
  | '_' => some '\u00a0'
  | 'L' => some '\u2028'
  | 'P' => some '\u2029'
  | _ => none

/-- How many digits the code of a character has after a backslash and a letter. -/
def codeLength? : Char → Option Nat
  | 'x' => some 2
  | 'u' => some 4
  | 'U' => some 8
  | _ => none

/-- The character with the code that the next `n` digits give. -/
def code (start : Mark) (n : Nat) : Scan Char := do
  need n
  let digits := (← get).rest.take n
  match digits.mapM hexDigit? with
  | none => fail .hexDigits start
  | some values =>
    if values.length < n then fail .hexDigits start
    let value := values.foldl (fun v d => v * 16 + d) 0
    if !value.isValidChar then fail .escapedCharacter start
    skipMany n
    return Char.ofNat value

/-- An escape sequence. -/
def escape (start : Mark) (text : String) : Scan String := do
  let c ← look 1
  match escaped? c, codeLength? c with
  | some e, _ =>
    skipMany 2
    return text.push e
  | none, some n =>
    skipMany 2
    return text.push (← code start n)
  | none, none => fail .escape start

/-- A word between quotes, and whether it ended with an escaped line break. -/
def quotedWord (single : Bool) (start : Mark) (text : String) : Scan (String × Bool) :=
  loop (text, false) fun (text, _) => do
    let c ← current
    let step (text : String) : Scan (ForInStep (String × Bool)) := do
      need 2
      return .yield (text, false)
    if endsWord c then return .done (text, false)
    else if single then
      if c == '\'' then
        if (← look 1) == '\'' then
          skipMany 2
          step (text.push c)
        else return .done (text, false)
      else step (← take text)
    else if c == '"' then return .done (text, false)
    else if c == '\\' then
      if isBreak (← look 1) then
        need 3
        skip
        skipLine
        return .done (text, true)
      else step (← escape start text)
    else step (← take text)

/-- A text between quotes. A quote in single quotes is doubled; in double quotes a backslash starts
an escape sequence. -/
def quoted (single : Bool) : Scan Unit := do
  let start ← mark
  skip
  let quote := if single then '\'' else '"'
  let text ← loop "" fun text => do
    need 4
    if ← atDocumentMark then fail .documentMark start
    if (← current) == endMark then fail .openQuote start
    let (text, broken) ← quotedWord single start text
    if (← next) == quote then return .done text
    let g ← gap (fun _ => pure ()) { broken := broken }
    return .yield (text ++ g.text)
  skip
  push (.scalar text false) start.line

/-! ## Blocks of lines -/

/-- What becomes of the line breaks at the end of a block. -/
inductive Chomping where
  | strip
  | clip
  | keep
  deriving Repr, DecidableEq, Inhabited

/-- The chomping that an indicator stands for. -/
def chomping? : Char → Option Chomping
  | '+' => some .keep
  | '-' => some .strip
  | _ => none

/-- An indicator of the chomping, if there is one. -/
def chomping : Scan (Option Chomping) := do
  match chomping? (← next) with
  | some c =>
    skip
    return some c
  | none => return none

/-- An indicator of the indentation, if there is one. -/
def increment (start : Mark) : Scan Nat := do
  let c ← next
  if c.isDigit then
    if c == '0' then fail .zeroIndent start
    skip
    return c.toNat - '0'.toNat
  else return 0

/-- The indicators of a block, in either order. -/
def blockHeader (start : Mark) : Scan (Chomping × Nat) := do
  match ← chomping with
  | some c => return (c, ← increment start)
  | none =>
    let n ← increment start
    if n = 0 then return (.clip, 0) else return ((← chomping).getD .clip, n)

/-- Empty lines of a block, and how far its lines are indented; 0 stands for an indentation that is
not known yet, and the first line with content tells it. -/
def blockBreaks (start : Mark) (indent : Nat) (breaks : String) : Scan (Nat × String) := do
  let (deepest, breaks) ← loop (0, breaks) fun (deepest, breaks) => do
    let inside : Scan Bool := do return indent = 0 || (← mark).column < indent
    loop () fun _ => do
      if (← next) == ' ' && (← inside) then
        skip
        return .yield ()
      else return .done ()
    let deepest := max deepest (← mark).column
    let c ← current
    if c == '\t' && (← inside) then fail .tabBlockIndent start
    if isBreak c then
      need 2
      return .yield (deepest, ← takeLine breaks)
    else return .done (deepest, breaks)
  if indent = 0 then return (max (max deepest ((← get).indent + 1).toNat) 1, breaks)
  else return (indent, breaks)

/-- The lines of a block. -/
structure Lines where
  text : String := ""
  /-- the break of the last line, and those of the empty lines after it -/
  first : String := ""
  more : String := ""
  /-- did the last line start with a blank? -/
  indented : Bool := false
  deriving Repr, DecidableEq, Inhabited

/-- The text in front of a line. In a folded block a break between two lines that do not start with
a blank is a space. -/
def Lines.joint (literal blank : Bool) (l : Lines) : String :=
  if !literal && !l.indented && !blank && l.first == "\n" then
    (if l.more.isEmpty then " " else "") ++ l.more
  else l.first ++ l.more

/-- A text of indented lines. -/
def block (literal : Bool) : Scan Unit := do
  let start ← mark
  skip
  let (chomping, increment) ← blockHeader start
  finishLine start
  let around := (← get).indent.toNat
  let indent := if increment = 0 then 0 else around + increment
  let (indent, more) ← blockBreaks start indent ""
  need 1
  let lines ← loop ({ more := more } : Lines) fun l => do
    let c ← current
    if (← mark).column ≠ indent || c == endMark then return .done l
    let text := l.text ++ l.joint literal (isBlank c)
    let text ← takeWhile (fun c => !endsLine c) text
    need 2
    let first ← takeLine ""
    let (_, more) ← blockBreaks start indent ""
    return .yield { text, first, more, indented := isBlank c }
  let text := lines.text ++ (if chomping = .strip then "" else lines.first) ++
    (if chomping = .keep then lines.more else "")
  push (.scalar text false) start.line

end Scan

end ValueGrammar.Yaml
