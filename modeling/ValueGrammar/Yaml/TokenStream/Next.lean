import ValueGrammar.Yaml.TokenStream.Blank
import ValueGrammar.Yaml.TokenStream.Property

/-!
# `ValueGrammar.Yaml.TokenStream.Next` — the next token

## Contents
- `Scan.flowStart`, `Scan.flowEnd`, `Scan.blockEntry`, `Scan.key`, `Scan.value`: marks and what they
  do to the context.
- `Scan.dispatch`, `Scan.read`: reads a token.
- `Scan.peekToken`, `Scan.dropToken`: the tokens one by one.
-/

namespace ValueGrammar.Yaml.Scan

/-! ## Marks -/

/-- Closes everything that a line that parts documents closes. -/
def closeDocument : Scan Unit := do
  unroll (-1) (← mark).line
  removeKey
  allowKey false

/-- The end of the text. -/
def streamEnd : Scan Unit := do
  modify fun s =>
    if s.mark.column = 0 then s
    else { s with mark := { s.mark with line := s.mark.line + 1, column := 0 } }
  closeDocument
  push .streamEnd (← mark).line

/-- The start of a collection in flow style, which may be a key. -/
def flowStart (lexeme : Lexeme) : Scan Unit := do
  saveKey
  openFlow
  allowKey true
  skipToken lexeme 1

/-- The end of a collection in flow style. -/
def flowEnd (lexeme : Lexeme) : Scan Unit := do
  removeKey
  closeFlow
  allowKey false
  skipToken lexeme 1

/-- The end of an entry in flow style. -/
def flowEntry : Scan Unit := do
  removeKey
  allowKey true
  skipToken .flowEntry 1

/-- In block context, opens a collection here if this is not the place of the open one. -/
def openBlock (cause : Cause) (lexeme : Lexeme) : Scan Unit := do
  let s ← get
  if s.flow = 0 then
    if !s.keyAllowed then fail cause s.mark
    roll s.mark.column s.nextNumber lexeme s.mark.line

/-- The start of an entry in block style. -/
def blockEntry : Scan Unit := do
  openBlock .entryNotAllowed .blockSequenceStart
  removeKey
  allowKey true
  skipToken .blockEntry 1

/-- The start of a key that has a mark. -/
def key : Scan Unit := do
  openBlock .keyNotAllowed .blockMappingStart
  removeKey
  allowKey ((← get).flow = 0)
  skipToken .key 1

/-- The start of a value. If a key stands before it, its tokens are marked as one. -/
def value : Scan Unit := do
  if ← keyStands ((← get).keys.size - 1) then
    let k := (← get).key
    insert k.number .key k.mark.line
    roll k.mark.column k.number .blockMappingStart k.mark.line
    dropKey
    allowKey false
  else
    openBlock .valueNotAllowed .blockMappingStart
    allowKey ((← get).flow = 0)
  skipToken .value 1

/-- A token of which a key may consist. -/
def keyed (token : Scan Unit) : Scan Unit := do
  saveKey
  allowKey false
  token

/-- A block of lines, after which a key may start. -/
def lines (literal : Bool) : Scan Unit := do
  removeKey
  allowKey true
  block literal

/-! ## Tokens -/

/-- The characters that mean something at the start of a token. -/
def isIndicator (c : Char) : Bool := "-?:,[]\x7b\x7d#&*!|>'\"%@`".toList.contains c

/-- May a plain text start with the next character? -/
def startsPlain (c after : Char) (inFlow : Bool) : Bool :=
  !(endsWord c || isIndicator c) || (c == '-' && !isBlank after) ||
    (!inFlow && (c == '?' || c == ':') && !endsWord after)

/-- Reads the token that starts with the next character. -/
def dispatch : Scan Unit := do
  let c ← current
  let after ← look 1
  let inFlow := (← get).flow ≠ 0
  if c == '[' then flowStart .flowSequenceStart
  else if c == '\x7b' then flowStart .flowMappingStart
  else if c == ']' then flowEnd .flowSequenceEnd
  else if c == '\x7d' then flowEnd .flowMappingEnd
  else if c == ',' then flowEntry
  else if c == '-' && endsWord after then blockEntry
  else if c == '?' && (inFlow || endsWord after) then key
  else if c == ':' && (inFlow || endsWord after) then value
  else if c == '*' then keyed (name .alias)
  else if c == '&' then keyed (name .anchor)
  else if c == '!' then keyed tag
  else if c == '|' && !inFlow then lines true
  else if c == '>' && !inFlow then lines false
  else if c == '\'' then keyed (quoted true)
  else if c == '"' then keyed (quoted false)
  else if startsPlain c after inFlow then keyed plain
  else fail .noToken (← mark)
  if !(c == '-' && endsWord after) then lineComment

/-- Reads a token, or those that come with it. -/
def read : Scan Unit := do
  need 1
  let line := (← mark).line
  toNextToken
  unroll (← mark).column line
  need 4
  let c ← current
  if c == endMark then streamEnd
  else if c == '%' && (← mark).column = 0 then
    closeDocument
    directive
  else if ← atDocumentMark then
    closeDocument
    skipToken (if c == '-' then .documentStart else .documentEnd) 3
  else dispatch

/-- So many tokens wait before the first is taken. -/
def lookahead : Nat := 3

/-- Can the first token be taken? Not if it may still turn out to be a key. -/
def settled : Scan Bool := do
  let s ← get
  if s.queue.length < lookahead then return false
  match s.keyOf.lookup s.taken with
  | some i => return !(← keyStands i)
  | none => return true

/-- The next token. -/
def peekToken : Scan Token := do
  if !(← get).ready then
    loop () fun _ => do
      if ← settled then return .done ()
      read
      return .yield ()
    modify fun s => { s with ready := true }
  return (← get).queue.headD ⟨.streamEnd, 0⟩

/-- Takes the next token. -/
def dropToken : Scan Unit :=
  modify fun s => { s with queue := s.queue.tail, taken := s.taken + 1, ready := false }

end ValueGrammar.Yaml.Scan
