import ValueGrammar.Token.Scan

/-!
# `ValueGrammar.Stylesheet.Event` — a stylesheet as a list of events

Reading a stylesheet gives one event for each rule that begins or ends and for each declaration. The
white space between the tokens of a selector or a value is reduced to single blanks where it means
something. Reading stops at the first thing that cannot be part of a stylesheet.

## Contents
- `Event`: what is found in a stylesheet.
- `Reading`, `Reading.pop`: the tokens not read yet, and what is remembered about those before.
- `Reading.atRule`, `Reading.qualifiedRule`, `Reading.declaration`, `Reading.customProperty`.
- `Reading.next`: one event; `Event.ofTokens`, `Event.ofText`: all of them.
-/

namespace ValueGrammar

/-- Something found in a stylesheet. -/
inductive Event where
  /-- nothing that matters for declarations -/
  | ignored
  /-- a selector of a list, but not the last one -/
  | selector (values : List Token)
  | beginRuleset (values : List Token)
  | endRuleset
  | beginAtRule (name : String) (values : List Token)
  | endAtRule
  | declaration (name : String) (values : List Token)
  | customProperty (name : String) (value : String)
  deriving Repr, DecidableEq, Inhabited

/-- A rule that is being read, by what stands in it. -/
inductive OpenRule where
  /-- the declarations of a qualified rule -/
  | ruleset
  /-- the declarations of an at-rule -/
  | declarations
  /-- the rules of an at-rule -/
  | rules
  /-- an at-rule of which nothing is known -/
  | unknown
  deriving Repr, DecidableEq, Inhabited

/-- The tokens not read yet, the rules being read, and what is remembered. -/
structure Reading where
  rest : List Token
  /-- the rules being read, the innermost first -/
  rules : List OpenRule
  /-- how many brackets are open -/
  level : Int
  /-- the last event also read a closing brace -/
  sawEnd : Bool
  /-- white space is not skipped -/
  keepSpace : Bool
  /-- white space was skipped before the last token -/
  afterSpace : Bool
  /-- a comment was skipped before the last token -/
  afterComment : Bool
  deriving Repr, DecidableEq, Inhabited

/-- What comes out of reading one event. -/
inductive Found where
  | event (e : Event) (r : Reading)
  | finished
  | broken (message : String)
  deriving Repr, DecidableEq, Inhabited

namespace Reading

/-- The start of a stylesheet. -/
def start (tokens : List Token) : Reading where
  rest := tokens
  rules := []
  level := 0
  sawEnd := false
  keepSpace := false
  afterSpace := false
  afterComment := false

/-- Skips white space, unless it is kept, and comments, unless the first is to be `shown`. -/
def popFrom (r : Reading) (shown : Bool) : List Token → Option Token × Reading
  | [] => (none, { r with rest := [] })
  | t :: ts =>
    if t.kind == .whitespace && !r.keepSpace then popFrom { r with afterSpace := true } shown ts
    else if t.kind == .comment then
      let r := { r with afterComment := true }
      if shown then (some t, { r with rest := ts }) else popFrom r shown ts
    else (some t, { r with rest := ts })

/-- The next token. Comments are skipped, or shown outside all rules. -/
def popOr (showComment : Bool) (r : Reading) : Option Token × Reading :=
  popFrom { r with afterSpace := false, afterComment := false } (showComment && r.rules.isEmpty)
    r.rest

/-- The next token that is no comment. -/
def pop (r : Reading) : Option Token × Reading := r.popOr false

/-- A token that opens a bracket. -/
def opens (t : Token) : Bool :=
  t.kind == .leftParen || t.kind == .leftBrace || t.kind == .leftBracket || t.kind == .function

/-- A token that closes a bracket. -/
def closes (t : Token) : Bool :=
  t.kind == .rightParen || t.kind == .rightBrace || t.kind == .rightBracket

/-- Counts the bracket a token opens or closes; closing one when none is open fails. -/
def count (r : Reading) (t : Token) : Option Reading :=
  if opens t then some { r with level := r.level + 1 }
  else if closes t then
    if r.level = 0 then none else some { r with level := r.level - 1 }
  else some r

/-- Does the token end a declaration, or an at-rule without a block? -/
def ends (r : Reading) (t : Token) : Bool :=
  (t.kind == .semicolon || t.kind == .rightBrace) && r.level = 0

/-- After a declaration or an at-rule without a block; a closing brace also ends the rule around. -/
def ended (r : Reading) (last : Option Token) : Reading :=
  { r with sawEnd := last.any (·.kind == .rightBrace) }

/-- The blank that stands for white space between two tokens. -/
def blank : Token := { kind := .whitespace, value := " " }

/-- A token in a selector or value: the blank before it, if one belongs there, and whether white
space after it is to be skipped. `glue` tells that white space around the token means nothing. -/
def spaced (glue space skip : Bool) (t : Token) : List Token × Bool :=
  if glue then ([t], true)
  else if space && !skip then ([blank, t], skip)
  else ([t], false)

/-- What the block of an at-rule holds, by its name without `@` and a vendor's prefix. -/
def blockOf (name : String) : OpenRule :=
  let name :=
    match name.toList with
    | '-' :: r =>
      match r.dropWhile (· != '-') with
      | _ :: base => String.ofList base
      | [] => name
    | _ => name
  if name == "font-face" || name == "page" then .declarations
  else if name == "document" || name == "keyframes" || name == "media" || name == "supports" then
    .rules
  else .unknown

/-- Reads an at-rule up to its block or its end, given its tokens so far, the last first. -/
def atRuleLoop (name : String) : Nat → Bool → Bool → List Token → Reading → Found
  | 0, _, _, _, _ => .finished
  | fuel + 1, first, skip, values, r =>
    match r.pop with
    | (none, r) => .event .ignored (r.ended none)
    | (some t, r) =>
      if t.kind == .leftBrace && r.level = 0 then
        let block := blockOf (String.ofList (name.toList.drop 1))
        .event (.beginAtRule name values.reverse) { r with rules := block :: r.rules }
      else if r.ends t then .event .ignored (r.ended (some t))
      else
        match r.count t with
        | none => .broken "unexpected ending in at rule"
        | some r =>
          let space := r.afterSpace && !(first && (t.kind == .leftParen || t.kind == .leftBracket))
          let glue := t.value == "," || t.value == ":"
          let (out, skip) := spaced glue (space && t.kind != .rightParen) skip t
          atRuleLoop name fuel false (skip || t.kind == .leftParen) (out.reverse ++ values) r

/-- Reads an at-rule after its name. -/
def atRule (t : Token) (r : Reading) : Found :=
  let name := String.ofList (t.value.toList.map Char.toLower)
  atRuleLoop name (r.rest.length + 1) true false [] r

/-- Reads a selector from the given token on. -/
def selectorLoop : Nat → Bool → Bool → List Token → Option Token → Reading → Found
  | 0, _, _, _, _, _ => .finished
  | fuel + 1, inside, skip, values, token, r =>
    match token with
    | none => .broken "unexpected ending in qualified rule"
    | some t =>
      if t.kind == .leftBrace && r.level = 0 then
        .event (.beginRuleset values.reverse) { r with rules := .ruleset :: r.rules }
      else
        match r.count t with
        | none => .broken "unexpected ending in qualified rule"
        | some r =>
          if t.value == "," then .event (.selector values.reverse) r
          else
            let glue := t.value == ">" || t.value == "+" || t.value == "~"
            let (out, skip) := spaced glue (r.afterSpace && !inside) skip t
            let inside :=
              if t.kind == .leftBracket then true
              else if t.kind == .rightBracket then false
              else inside
            let (next, r) := r.pop
            selectorLoop fuel inside skip (out.reverse ++ values) next r

/-- Reads a selector that starts with the given token. -/
def qualifiedRule (t : Token) (r : Reading) : Found :=
  selectorLoop (r.rest.length + 2) false true [] (some t) r

/-- Reads the value of a declaration. -/
def declarationLoop (name : String) : Nat → Bool → List Token → Reading → Found
  | 0, _, _, _ => .finished
  | fuel + 1, skip, values, r =>
    match r.pop with
    | (none, r) => .event (.declaration name values.reverse) (r.ended none)
    | (some t, r) =>
      if r.ends t then .event (.declaration name values.reverse) (r.ended (some t))
      else
        match r.count t with
        | none => .broken "unexpected ending in declaration"
        | some r =>
          let glue := t.value == "," || t.value == "/" || t.value == ":" || t.value == "!" ||
            t.value == "="
          let (out, skip) := spaced glue (r.afterSpace || r.afterComment) skip t
          declarationLoop name fuel skip (out.reverse ++ values) r

/-- Reads a declaration after its name. -/
def declaration (name : String) (r : Reading) : Found :=
  match r.pop with
  | (some t, r) =>
    if t.kind == .colon then
      declarationLoop (String.ofList (name.toList.map Char.toLower)) (r.rest.length + 1) true [] r
    else .broken "expected colon in declaration"
  | (none, _) => .broken "expected colon in declaration"

/-- Reads the value of a custom property, with all its white space and comments. -/
def customPropertyLoop (name : String) (r : Reading) (value : String) : List Token → Found
  | [] => .event (.customProperty name value) ({ r with rest := [] }.ended none)
  | t :: ts =>
    if r.ends t then .event (.customProperty name value) ({ r with rest := ts }.ended (some t))
    else
      match r.count t with
      | none => .broken "unexpected ending in custom property"
      | some r => customPropertyLoop name r (value ++ t.value) ts

/-- Reads a custom property after its name. -/
def customProperty (name : String) (r : Reading) : Found :=
  match r.pop with
  | (some t, r) =>
    if t.kind == .colon then customPropertyLoop name r "" r.rest
    else .broken "expected colon in custom property"
  | (none, _) => .broken "expected colon in custom property"

/-- Skips semicolons from the given token on. -/
def skipSemicolons : Nat → Option Token → Reading → Option Token × Reading
  | 0, token, r => (token, r)
  | fuel + 1, token, r =>
    match token with
    | some t =>
      if t.kind == .semicolon then
        let (next, r) := r.pop
        skipSemicolons fuel next r
      else (token, r)
    | none => (none, r)

/-- A name that starts with two dashes. -/
def isCustomName (t : Token) : Bool :=
  t.kind == .ident && "--".toList.isPrefixOf t.value.toList

/-- Reads a declaration, or an at-rule among declarations, from the given token on. A `*` in front
of a name is part of it. -/
def declarationFrom (t : Token) (r : Reading) : Found :=
  let (token, text, r) : Option Token × String × Reading :=
    if t.kind == .delim && t.value == "*" then
      match r.pop with
      | (some u, r) => (some u, t.value ++ u.value, r)
      | (none, r) => (none, t.value, r)
    else (some t, t.value, r)
  match token with
  | none => .finished
  | some u =>
    if u.kind == .atKeyword then atRule { u with value := text } r
    else if isCustomName u then customProperty text r
    else if u.kind == .ident || u.kind == .delim then declaration text r
    else .broken ("unexpected token '" ++ text ++ "' in declaration")

/-- Reads what stands in a block of declarations; `done` is the event of its end. -/
def declarationBlock (done : Event) (token : Option Token) (r : Reading) : Found :=
  let (token, r) := skipSemicolons (r.rest.length + 1) token r
  let closed : Found := .event done { r with rules := r.rules.tail }
  match token with
  | none => closed
  | some t => if t.kind == .rightBrace then closed else declarationFrom t r

/-- Reads what stands in a block of rules. -/
def ruleBlock (token : Option Token) (r : Reading) : Found :=
  let closed : Found := .event .endAtRule { r with rules := r.rules.tail }
  match token with
  | none => closed
  | some t =>
    if t.kind == .rightBrace then closed
    else if t.kind == .atKeyword then atRule t r
    else qualifiedRule t r

/-- Reads a token of a block of which nothing is known. -/
def unknownBlock (token : Option Token) (r : Reading) : Found :=
  let closed : Found := .event .endAtRule { r with rules := r.rules.tail, keepSpace := false }
  match token with
  | none => closed
  | some t =>
    if t.kind == .rightBrace && r.level = 0 then closed
    else
      let change : Int := if opens t then 1 else if closes t then -1 else 0
      .event .ignored { r with level := r.level + change, keepSpace := true }

/-- Reads what stands outside all rules. -/
def topLevel (token : Option Token) (r : Reading) : Found :=
  match token with
  | none => .finished
  | some t =>
    if t.kind == .cdo || t.kind == .cdc || t.kind == .comment then .event .ignored r
    else if t.kind == .atKeyword then atRule t r
    else qualifiedRule t r

/-- The closing brace that a declaration has read already. -/
def closingBrace : Token := { kind := .rightBrace, value := "\x7d" }

/-- Reads one event. -/
def next (r : Reading) : Found :=
  let (token, r) :=
    if r.sawEnd then (some closingBrace, { r with sawEnd := false }) else r.popOr true
  match r.rules with
  | [] => topLevel token r
  | .ruleset :: _ => declarationBlock .endRuleset token r
  | .declarations :: _ => declarationBlock .endAtRule token r
  | .rules :: _ => ruleBlock token r
  | .unknown :: _ => unknownBlock token r

/-- Reads events, at most `fuel` of them. -/
def events : Nat → Reading → List Event × Option String
  | 0, _ => ([], none)
  | fuel + 1, r =>
    match r.next with
    | .finished => ([], none)
    | .broken m => ([], some m)
    | .event e r' =>
      let (es, m) := events fuel r'
      (e :: es, m)

end Reading

namespace Event

/-- The events of a list of tokens, and why reading stopped early if it did. Each event reads a
token, uses up a brace read before, or ends a rule, so there are at most three for each token. -/
def ofTokens (ts : List Token) : List Event × Option String :=
  Reading.events (3 * ts.length + 3) (Reading.start ts)

/-- The events of a stylesheet. -/
def ofText (s : String) : List Event × Option String := ofTokens (Token.scan s)

end Event

end ValueGrammar
