import ValueGrammar.Yaml.Input
import ValueGrammar.Yaml.Token

/-!
# `ValueGrammar.Yaml.TokenStream` — reading tokens

The tokens of a document are read as they are asked for. What a character means depends on the
context: on the indentation of the collections in block style that are open, on the number of open
collections in flow style, and on whether a key may start here. That a scalar was a key is known
only when its colon is seen, so tokens wait until they cannot be keys any more.

## Contents
- `Key`: where a key may have started.
- `TokenStream`, `TokenStream.ofInput`: the text left, the context, and the tokens that wait.
- `Scan`: functions of a token stream that may fail; `repeatWithin`, `Scan.loop`.
- `Scan.need`, `Scan.look`, `Scan.skip`, `Scan.skipLine`, `Scan.takeLine`: characters.
- `Scan.push`, `Scan.insert`, `Scan.roll`, `Scan.unroll`: tokens and indentation.
- `Scan.saveKey`, `Scan.removeKey`, `Scan.keyStands`: keys.
-/

namespace ValueGrammar.Yaml

/-- A place where a key may have started. -/
structure Key where
  /-- is it still possible that it was one? -/
  possible : Bool := false
  /-- can it be nothing else? -/
  required : Bool := false
  /-- the number of its first token -/
  number : Nat := 0
  mark : Mark := {}
  deriving Repr, DecidableEq, Inhabited

/-- A text of which tokens are read. -/
structure TokenStream where
  /-- the characters left -/
  rest : List Char
  /-- where they start -/
  mark : Mark := {}
  /-- line breaks since the last character that is not a blank -/
  newlines : Nat := 0
  /-- how many characters have been fetched, and the sizes of the windows that have not -/
  fetched : Nat := 0
  windows : List Nat
  /-- what is wrong with what comes after the last window -/
  failure : Option Cause
  /-- did the characters start with a byte order mark when more were fetched last? -/
  marked : Bool := false
  /-- a bound on the steps that anything here takes -/
  bound : Nat
  /-- the column of the innermost collection in block style, and those of the ones around it -/
  indent : Int := -1
  indents : List Int := []
  /-- how many collections in flow style are open -/
  flow : Nat := 0
  keyAllowed : Bool := true
  /-- the last possible key of the block context and of each open collection in flow style -/
  keys : Array Key := #[{}]
  /-- which of the keys a token starts -/
  keyOf : List (Nat × Nat) := []
  /-- the tokens that wait, the number of those before them, and whether the first can be taken -/
  queue : List Token := []
  taken : Nat := 0
  ready : Bool := false
  deriving Inhabited

namespace TokenStream

/-- The tokens of an input. -/
def ofInput (input : Input) : TokenStream :=
  { rest := input.chars
    windows := input.windows
    failure := input.failure
    bound := input.chars.length + 8 }

/-- Fetches windows until `target` characters are there, if there are so many. -/
def fetch (target : Nat) : List Nat → Nat → Nat × List Nat
  | [], fetched => (fetched, [])
  | w :: ws, fetched =>
    if target ≤ fetched then (fetched, w :: ws) else fetch target ws (fetched + w)

/-- The innermost key. -/
def key (s : TokenStream) : Key := s.keys.back?.getD {}

/-- The number of the next token that is read. -/
def nextNumber (s : TokenStream) : Nat := s.taken + s.queue.length

end TokenStream

/-- Repeats a step until it is done, or for `fuel` times. -/
@[specialize]
def repeatWithin {m : Type → Type} [Monad m] {σ : Type} (step : σ → m (ForInStep σ)) :
    Nat → σ → m σ
  | 0, s => pure s
  | fuel + 1, s => do
    match ← step s with
    | .done s => pure s
    | .yield s => repeatWithin step fuel s

/-- A function of a token stream that may fail. -/
abbrev Scan : Type → Type := StateT TokenStream (Except Problem)

namespace Scan

/-- Repeats a step that takes a character each time until it is done. -/
def loop {σ : Type} (start : σ) (step : σ → Scan (ForInStep σ)) : Scan σ := do
  repeatWithin step (← get).bound start

/-! ## Characters -/

/-- Fails because of something that started at a place. -/
def fail {α : Type} (cause : Cause) (context : Mark) : Scan α := do
  throw (.ofText cause context.line (← get).mark.line)

/-- Sees to it that `n` characters are there, which may fail if they cannot be read. There is an end
mark after the last one. -/
def need (n : Nat) : Scan Unit := do
  let s ← get
  let target := s.mark.index + n
  if s.fetched < target then
    let (fetched, windows) := TokenStream.fetch target s.windows s.fetched
    let s := { s with fetched, windows, marked := s.rest.head? == some '\ufeff' }
    if target ≤ fetched then set s
    else
      match s.failure with
      | some cause => throw (.general cause)
      | none => set { s with fetched := fetched + 1 }

/-- The character after `n` others. -/
def look (n : Nat) : Scan Char := do return (← get).rest.getD n endMark

/-- The next character. -/
def current : Scan Char := look 0

/-- The next character, which is fetched if need be. -/
def next : Scan Char := do
  need 1
  current

/-- Where the text is being read. -/
def mark : Scan Mark := do return (← get).mark

/-- Passes over a character. -/
def skip : Scan Unit :=
  modify fun s =>
    { s with
      newlines := if isBlank (s.rest.headD endMark) then s.newlines else 0
      mark := { s.mark with index := s.mark.index + 1, column := s.mark.column + 1 }
      rest := s.rest.tail }

/-- Passes over `n` characters. -/
def skipMany : Nat → Scan Unit
  | 0 => pure ()
  | n + 1 => do
    skip
    skipMany n

/-- Passes over a character and adds it to a text. -/
def take (text : String) : Scan String := do
  let c ← current
  skip
  return text.push c

/-- Passes over `n` characters that are a line break. -/
def skipBreak (n : Nat) : Scan Unit :=
  modify fun s =>
    { s with
      newlines := s.newlines + 1
      mark := { index := s.mark.index + n, line := s.mark.line + 1, column := 0 }
      rest := s.rest.drop n }

/-- Passes over a line break and adds it to a text. Most breaks are the same there. -/
def takeLine (text : String) : Scan String := do
  match (← get).rest with
  | '\r' :: '\n' :: _ =>
    skipBreak 2
    return text.push '\n'
  | c :: _ =>
    if isBreak c then
      skipBreak 1
      return text.push (if c == '\u2028' || c == '\u2029' then c else '\n')
    else return text
  | [] => return text

/-- Passes over a line break. -/
def skipLine : Scan Unit := do
  let _ ← takeLine ""

/-- Passes over a line break that may have two characters. -/
def nextLine : Scan Unit := do
  need 2
  skipLine

/-- Passes over characters of a class. -/
def skipWhile (p : Char → Bool) : Scan Unit :=
  loop () fun _ => do
    if p (← next) then
      skip
      return .yield ()
    else return .done ()

/-- Passes over characters of a class and adds them to a text. -/
def takeWhile (p : Char → Bool) (text : String) : Scan String :=
  loop text fun text => do
    if p (← next) then return .yield (← take text) else return .done text

/-- Passes over the rest of a line, which may be a comment after blanks. -/
def finishLine (context : Mark) : Scan Unit := do
  skipWhile isBlank
  if (← current) == '#' then skipWhile fun c => !endsLine c
  if !endsLine (← current) then fail .noLineEnd context
  if isBreak (← current) then nextLine

/-- Is this a line that parts documents? -/
def atDocumentMark : Scan Bool := do
  if (← mark).column ≠ 0 then return false
  match (← get).rest with
  | '-' :: '-' :: '-' :: rest | '.' :: '.' :: '.' :: rest => return endsWord (rest.headD endMark)
  | _ => return false

/-! ## Tokens -/

/-- Puts a token at the end of those that wait. -/
def push (lexeme : Lexeme) (line : Nat) : Scan Unit :=
  modify fun s => { s with queue := s.queue ++ [⟨lexeme, line⟩] }

/-- Puts a token where the one with the given number waits, or at the end if that one has been taken
already. -/
def insert (number : Nat) (lexeme : Lexeme) (line : Nat) : Scan Unit :=
  modify fun s =>
    let n := if number < s.taken then s.queue.length else number - s.taken
    { s with queue := s.queue.take n ++ ⟨lexeme, line⟩ :: s.queue.drop n }

/-- Passes over `n` characters, which are a token. -/
def skipToken (lexeme : Lexeme) (n : Nat) : Scan Unit := do
  let line := (← mark).line
  skipMany n
  push lexeme line

/-! ## Keys -/

/-- A colon stands at most so many characters after the start of its key. -/
def keyLimit : Nat := 1024

/-- Can a key still be one? It ends with its line. -/
def keyStands (i : Nat) : Scan Bool := do
  let s ← get
  let k := s.keys.getD i {}
  if !k.possible then return false
  if k.mark.line < s.mark.line || k.mark.index + keyLimit < s.mark.index then
    if k.required then fail .noColon k.mark
    set { s with keys := s.keys.modify i fun k => { k with possible := false } }
    return false
  return true

/-- Gives up the innermost key. -/
def dropKey : Scan Unit :=
  modify fun s =>
    { s with
      keys := s.keys.modify (s.keys.size - 1) fun k => { k with possible := false }
      keyOf := s.keyOf.filter fun e => e.1 ≠ s.key.number }

/-- Gives up the innermost key if there is one; there may be none that has to be one. -/
def removeKey : Scan Unit := do
  let k := (← get).key
  if k.possible then
    if k.required then fail .noColon k.mark
    dropKey

/-- A key may start here, if keys are allowed. -/
def saveKey : Scan Unit := do
  if (← get).keyAllowed then
    removeKey
    modify fun s =>
      let k : Key :=
        { possible := true
          required := s.flow = 0 ∧ s.indent = s.mark.column
          number := s.nextNumber
          mark := s.mark }
      let depth := s.keys.size - 1
      { s with
        keys := s.keys.modify depth fun _ => k
        keyOf := (k.number, depth) :: s.keyOf.filter fun e => s.taken ≤ e.1 && e.1 ≠ k.number }

/-- Says whether a key may come next. -/
def allowKey (allowed : Bool) : Scan Unit := modify fun s => { s with keyAllowed := allowed }

/-! ## Indentation -/

/-- Collections are not nested deeper than this. -/
def depthLimit : Nat := 10000

/-- Opens a collection in block style at a column, if it is deeper than the one around it. Its first
token goes before the token with the given number. -/
def roll (column number : Nat) (lexeme : Lexeme) (line : Nat) : Scan Unit := do
  let s ← get
  if s.flow = 0 ∧ s.indent < column then
    set { s with indent := column, indents := s.indent :: s.indents }
    if depthLimit ≤ s.indents.length then fail (.depth depthLimit) s.key.mark
    insert number lexeme line

/-- Closes the collections in block style that are deeper than a column: how many they are, and the
columns of those left. -/
def closed (column : Int) : Int → List Int → Nat × Int × List Int
  | i, [] => (0, i, [])
  | i, j :: js =>
    if column < i then
      let (n, rest) := closed column j js
      (n + 1, rest)
    else (0, i, j :: js)

/-- Closes the collections in block style that are deeper than a column. -/
def unroll (column : Int) (line : Nat) : Scan Unit :=
  modify fun s =>
    if s.flow = 0 then
      let (n, indent, indents) := closed column s.indent s.indents
      { s with indent, indents, queue := s.queue ++ List.replicate n ⟨.blockEnd, line⟩ }
    else s

/-- Opens a collection in flow style. -/
def openFlow : Scan Unit := do
  let s ← get
  set { s with
    flow := s.flow + 1
    keys := s.keys.push { number := s.nextNumber, mark := s.mark } }
  if depthLimit ≤ s.flow then fail (.depth depthLimit) s.mark

/-- Closes a collection in flow style, if one is open. -/
def closeFlow : Scan Unit :=
  modify fun s =>
    if s.flow = 0 then s
    else
      { s with
        flow := s.flow - 1
        keyOf := s.keyOf.filter fun e => e.1 ≠ s.key.number
        keys := s.keys.pop }

end Scan

end ValueGrammar.Yaml
