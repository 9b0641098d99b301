import ValueGrammar.State
import ValueGrammar.Trace

/-!
# `ValueGrammar.Machine` — walking states against tokens

A machine that decides whether a list of significant tokens matches a state, one small step at a
time. It keeps two stacks: where to go on when the current state succeeds, and where to go back to
when it fails. A frame of the second kind is a snapshot of everything that is undone by going back.

Two types are put off: an identifier as `<custom-ident>` and a bare zero as `<length>` match so much
that other alternatives should have the first go. The first such alternative met since a token was
taken is stashed with its stacks, and tried once when everything else has failed.

## Contents
- `TermSet`: which terms of a group in any order have matched.
- `Leaf.take`: what a leaf does with the tokens ahead.
- `Focus`, `Then`, `Scope`, `Else`, `Config`: what a machine remembers.
- `Machine`: what does not change during a run; `Machine.step`, `Machine.run`.
-/

namespace ValueGrammar

/-! ## Sets of terms -/

/-- A set of terms of a group in any order, one bit for each. -/
abbrev TermSet : Type := BitVec 64

namespace TermSet

/-- No term. -/
def empty : TermSet := 0#64

/-- Is term number `i` in the set? -/
def has (s : TermSet) (i : Nat) : Bool := s.getLsbD i

/-- The set with term number `i`. -/
def insert (s : TermSet) (i : Nat) : TermSet := s ||| BitVec.twoPow 64 i

/-- The first `n` terms. -/
def full (n : Nat) : TermSet :=
  if 64 ≤ n then BitVec.allOnes 64 else BitVec.twoPow 64 n - 1#64

end TermSet

/-! ## Leaves -/

/-- A value without the suffix `\0` or `\9`, and what follows it, that old browsers took. -/
def withoutHack : List Char → List Char
  | '\\' :: d :: r =>
    if d == '0' || d == '9' then [] else '\\' :: withoutHack (d :: r)
  | c :: r => c :: withoutHack r
  | [] => []

/-- A text without such a suffix. -/
def stripHack (s : String) : String := String.ofList (withoutHack s.toList)

/-- A comma after this token would come first in a list. Nothing stands for the beginning. -/
def isListStart : Option Token → Bool
  | none => true
  | some t =>
    match t.kind with
    | .comma => true
    | .function => true
    | .leftParen => true
    | .leftBracket => true
    | .leftBrace => true
    | .delim => t.value != "?"
    | _ => false

/-- A comma before this token would come last in a list. Nothing stands for the end. -/
def isListEnd : Option Token → Bool
  | none => true
  | some t =>
    match t.kind with
    | .rightParen => true
    | .rightBracket => true
    | .rightBrace => true
    | .delim => t.value == "/"
    | _ => false

/-- How many tokens it takes to spell at least `size` bytes, or as many as there are. -/
def spellingLength (size : Nat) : List Token → Nat
  | [] => 0
  | t :: ts => if size = 0 then 0 else spellingLength (size - t.value.utf8ByteSize) ts + 1

namespace Leaf

/-- One token that passes a test. -/
def takeOne (p : Token → Bool) : List Token → Nat × Bool
  | t :: _ => if p t then (1, true) else (0, false)
  | [] => (0, false)

/-- A comma between two items is taken; where it would come first or last it may be left out, and
must be. A comma that turns out to come last is taken all the same before it fails. -/
def takeComma (last : Option Token) (ahead : List Token) : Nat × Bool :=
  match ahead with
  | t :: rest =>
    if t.kind == .comma then
      if isListStart last then (0, false) else (1, !isListEnd rest.head?)
    else (0, isListStart last || isListEnd (some t))
  | [] => (0, true)

/-- How many of the tokens ahead a leaf takes, and whether it then succeeds. `last` is the token
taken before, and `range` what the numbers of a generic type are restricted to. -/
def take (l : Leaf) (last : Option Token) (range : Option Range) (ahead : List Token) :
    Nat × Bool :=
  match l with
  | .keyword name => takeOne (fun t => Text.equalFold (stripHack t.value) name) ahead
  | .atKeyword name => takeOne (fun t => Text.equalFold t.value name) ahead
  | .function name => takeOne (fun t => Text.equalFold t.value name) ahead
  | .token value => takeOne (fun t => t.value == value) ahead
  | .comma => takeComma last ahead
  | .string value size =>
    let n := spellingLength size ahead
    if Text.equalFold (Token.joined (ahead.take n)) value then (n, true) else (0, false)
  | .generic _ count =>
    let n := count ahead range
    (min n ahead.length, 0 < n)

end Leaf

/-! ## What a machine remembers -/

/-- What a machine looks at: a state, or a group in any order that is being matched. -/
inductive Focus where
  | state (s : State)
  /-- tries the terms from number `index` on that are not in `taken` -/
  | choose (terms : List State) (all : Bool) (node : Grammar) (index : Nat) (taken : TermSet)
  /-- a term of the group has matched, which is now in `taken` -/
  | resume (terms : List State) (all : Bool) (node : Grammar) (taken : TermSet)
  deriving Inhabited

/-- A reference that is being matched, and the range that holds inside it. -/
structure Scope where
  node : Grammar
  range : Option Range
  deriving Inhabited

/-- Where to go on after a success, with the trace and the scopes when this was decided. -/
structure Then where
  next : Focus
  trace : Trace
  scopes : List Scope
  deriving Inhabited

/-- Where to go back to after a failure. -/
structure Else where
  next : Focus
  index : Nat
  thens : List Then
  scopes : List Scope
  trace : Trace
  deriving Inhabited

/-- Everything that changes during a run. -/
structure Config where
  focus : Focus
  /-- how many significant tokens have been taken -/
  index : Nat
  thens : List Then
  elses : List Else
  scopes : List Scope
  trace : Trace
  /-- the alternative put off, with the alternatives below it -/
  stash : Option (Else × List Else)
  /-- the alternative put off has been tried since the last token -/
  stashUsed : Bool
  /-- the most tokens any path has taken -/
  longest : Nat
  /-- the references looked up, the latest first -/
  lookups : List Reference
  deriving Inhabited

namespace Config

/-- The start of a run. -/
def start (root : State) : Config where
  focus := .state root
  index := 0
  thens := []
  elses := []
  scopes := []
  trace := []
  stash := none
  stashUsed := false
  longest := 0
  lookups := []

/-- Looks at a state next. -/
def goto (c : Config) (s : State) : Config := { c with focus := .state s }

/-- A snapshot that goes on with `next`. -/
def snapshot (c : Config) (next : Focus) : Else := ⟨next, c.index, c.thens, c.scopes, c.trace⟩

/-- Adds an alternative. -/
def pushElse (c : Config) (next : Focus) : Config :=
  { c with elses := c.snapshot next :: c.elses }

/-- Adds a continuation. -/
def pushThen (c : Config) (next : Focus) : Config :=
  { c with thens := ⟨next, c.trace, c.scopes⟩ :: c.thens }

/-- Takes a snapshot back; `elses` are the alternatives below it. -/
def restore (c : Config) (e : Else) (elses : List Else) : Config :=
  { c with
    focus := e.next, index := e.index, thens := e.thens, scopes := e.scopes, trace := e.trace,
    elses := elses }

/-- Takes a token for a node of the grammar. What was put off is forgotten. -/
def takeToken (c : Config) (node : Grammar) (t : Token) : Config :=
  { c with
    trace := .token node c.index t :: c.trace
    index := c.index + 1
    stash := none
    stashUsed := false
    longest := max c.longest (c.index + 1) }

/-- Takes several tokens. -/
def takeTokens (c : Config) (node : Grammar) : List Token → Config
  | [] => c
  | t :: ts => (c.takeToken node t).takeTokens node ts

/-- Enters a scope; without a range of its own it keeps the one around it. -/
def openScope (c : Config) (node : Grammar) (range : Option Range) : Config :=
  let inherited := c.scopes.head?.bind (·.range)
  { c with
    scopes := ⟨node, range <|> inherited⟩ :: c.scopes
    trace := .opened node :: c.trace }

/-- Leaves the innermost scope. A scope in which nothing was taken leaves no record. -/
def closeScope (c : Config) : Config :=
  match c.scopes with
  | [] => c
  | s :: scopes =>
    let trace := match c.trace with
      | .opened _ :: rest => rest
      | tr => .closed s.node :: tr
    { c with scopes, trace }

/-- Leaves `n` scopes. -/
def closeScopes (c : Config) : Nat → Config
  | 0 => c
  | n + 1 => c.closeScope.closeScopes n

/-- Leaves the scopes entered since there were only the given ones. -/
def closeTo (c : Config) (scopes : List Scope) : Config :=
  c.closeScopes (c.scopes.length - scopes.length)

end Config

/-! ## Steps -/

/-- Why a run ended without an answer. -/
inductive MachineError (ε : Type) where
  /-- a reference to a name that does not exist -/
  | unresolved (reference : Reference)
  /-- looking a name up failed -/
  | lookup (error : ε)
  /-- a state that cannot be looked at by itself -/
  | stuck
  deriving Repr, DecidableEq, Inhabited

/-- What a step leads to. -/
inductive Step (ε : Type) where
  | next (c : Config)
  | finished (matched : Bool) (c : Config)
  | failed (error : MachineError ε) (c : Config)
  deriving Inhabited

/-- What does not change during a run: the significant tokens, what references stand for, and
whether some types are put off. -/
structure Machine (ε : Type) where
  tokens : List Token
  resolve : Reference → Except ε (Option State)
  lowPriority : Bool

namespace Machine

variable {ε : Type}

/-- The tokens not taken yet. -/
def ahead (m : Machine ε) (c : Config) : List Token := m.tokens.drop c.index

/-- The token to be matched next. -/
def current? (m : Machine ε) (c : Config) : Option Token := (m.ahead c).head?

/-- Every token has been taken, or all but a last one that is a suffix of its own for old
browsers. -/
def atEnd (m : Machine ε) (c : Config) : Bool :=
  match m.ahead c with
  | [] => true
  | [t] => t.value == "\\0" || t.value == "\\9"
  | _ => false

/-- The state looked at has succeeded. -/
def onAccept (m : Machine ε) (c : Config) : Step ε :=
  match c.thens with
  | [] => if m.atEnd c then .finished true c else .next (c.goto .reject)
  | t :: thens =>
    let resumed (next : Focus) : Config := { c.closeTo t.scopes with focus := next, thens }
    match t.next with
    | .state .nonEmpty =>
      if t.trace.lastIndex? = c.trace.lastIndex? then .next (c.goto .reject)
      else .next (resumed (.state .accept))
    | next => .next (resumed next)

/-- The state looked at has failed. -/
def onReject (c : Config) : Step ε :=
  let deeper (index : Nat) : List Else → Bool
    | [] => true
    | e :: _ => decide (e.index < index)
  match c.stash, c.stashUsed with
  | some (e, elses), false =>
    if deeper c.index c.elses then
      .next { c.restore e elses with stash := none, stashUsed := true }
    else
      match c.elses with
      | e' :: elses' => .next (c.restore e' elses')
      | [] => .finished false c
  | _, _ =>
    match c.elses with
    | e :: elses => .next (c.restore e elses)
    | [] => .finished false c

/-- A conditional: trivial continuations and alternatives are not put on the stacks. -/
def onBranch (c : Config) (test next other : State) : Step ε :=
  let c := if other.isReject then c else c.pushElse (.state other)
  let c := if next.isAccept then c else c.pushThen (.state next)
  .next (c.goto test)

/-- The first term from number `index` on that has not been taken. -/
def nextTerm? (taken : TermSet) : Nat → List State → Option (Nat × State)
  | _, [] => none
  | i, s :: ss => if taken.has i then nextTerm? taken (i + 1) ss else some (i, s)

/-- A group in any order: it is done if all its terms are taken; else one more of them is tried, and
if none is left the group is done if it needs only some. -/
def onChoose (c : Config) (terms : List State) (all : Bool) (node : Grammar) (index : Nat)
    (taken : TermSet) : Step ε :=
  if index = terms.length then
    .next (c.goto (if taken = TermSet.empty || all then .reject else .accept))
  else if taken = TermSet.full terms.length then .next (c.goto .accept)
  else
    match nextTerm? taken index (terms.drop index) with
    | some (i, s) =>
      let c := c.pushElse (.choose terms all node (i + 1) taken)
      let c := c.pushThen (.resume terms all node (taken.insert i))
      .next (c.goto s)
    | none => .next { c with focus := .choose terms all node terms.length taken }

/-- The state found under the value of the current token. -/
def onEnum (m : Machine ε) (c : Config) (table : List (String × State)) : Step ε :=
  match m.current? c with
  | none => .next (c.goto .reject)
  | some t => .next (c.goto ((table.lookup (stripHack (Text.lower t.value))).getD .reject))

/-- Is this a type that is put off at the given token? -/
def isLowPriority (r : Reference) (t : Token) : Bool :=
  r.kind == .type &&
    ((r.name == "custom-ident" && t.kind == .ident) || (r.name == "length" && t.value == "0"))

/-- A reference: what it stands for is matched in a scope of its own, or later if it is put off. -/
def onCall (m : Machine ε) (c : Config) (r : Reference) (range : Option Range) (node : Grammar) :
    Step ε :=
  let c := { c with lookups := r :: c.lookups }
  match m.resolve r with
  | .error e => .failed (.lookup e) c
  | .ok none => .failed (.unresolved r) c
  | .ok (some root) =>
    let later := m.lowPriority && !c.stashUsed && (m.current? c).any (isLowPriority r)
    if later then
      let stash := match c.stash with
        | some s => some s
        | none => some (c.snapshot (.state (.call r range node)), c.elses)
      .next ({ c with stash }.goto .reject)
    else .next ((c.openScope node range).goto root)

/-- A leaf takes tokens, and succeeds or fails. -/
def onLeaf (m : Machine ε) (c : Config) (l : Leaf) (node : Grammar) : Step ε :=
  let last := c.trace.lastToken?.map (·.2)
  let (n, ok) := l.take last (c.scopes.head?.bind (·.range)) (m.ahead c)
  let c := c.takeTokens node ((m.ahead c).take n)
  .next (c.goto (if ok then .accept else .reject))

/-- One step. -/
def step (m : Machine ε) (c : Config) : Step ε :=
  match c.focus with
  | .choose terms all node index taken => onChoose c terms all node index taken
  | .resume terms all node taken => .next { c with focus := .choose terms all node 0 taken }
  | .state s =>
    match s with
    | .accept => m.onAccept c
    | .reject => onReject c
    | .nonEmpty => .failed .stuck c
    | .cond test next other => onBranch c test next other
    | .loop body sep => onBranch c body (.again body sep) .reject
    | .again body sep =>
      match sep with
      | none => onBranch c .accept .accept (.loop body none)
      | some node =>
        onBranch c .accept .accept (.cond (.leaf .comma node) (.loop body (some node)) .reject)
    | .enum table => m.onEnum c table
    | .once terms all node => .next { c with focus := .choose terms all node 0 TermSet.empty }
    | .leaf l node => m.onLeaf c l node
    | .call r range node => m.onCall c r range node

/-! ## Runs -/

/-- How a run ended. -/
inductive Outcome (ε : Type) where
  | matched
  | mismatched
  | limited
  | failed (error : MachineError ε)
  deriving Repr, DecidableEq, Inhabited

/-- A run: how it ended, after how many steps, and where. -/
structure Run (ε : Type) where
  outcome : Outcome ε
  steps : Nat
  final : Config
  deriving Inhabited

/-- At most `fuel` steps from a configuration reached after `steps` of them. -/
def runFrom (m : Machine ε) : Nat → Nat → Config → Run ε
  | 0, steps, c => ⟨.limited, steps, c⟩
  | fuel + 1, steps, c =>
    match m.step c with
    | .next c' => runFrom m fuel (steps + 1) c'
    | .finished true c' => ⟨.matched, steps + 1, c'.closeTo []⟩
    | .finished false c' => ⟨.mismatched, steps + 1, c'⟩
    | .failed e c' => ⟨.failed e, steps + 1, c'⟩

/-- At most `limit` steps from a state. -/
def run (m : Machine ε) (limit : Nat) (root : State) : Run ε := m.runFrom limit 0 (.start root)

end Machine

end ValueGrammar
