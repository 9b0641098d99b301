import ValueGrammar.Text.Blank
import ValueGrammar.Token.Scan

/-!
# `ValueGrammar.Grammar.Parser` — parsing expressions with backtracking

A parser is a function of the cursor that answers a value or a failure, and says where the cursor
is afterwards, whether it failed or not. Failures come in two kinds: the expressions that try
alternatives recover from one kind and pass the other on.

## Contents
- `Cursor`, `Failure`, `Parser` and its monad.
- `Parser.peek`, `Parser.anyChar`, `Parser.char`, `Parser.literal`: what stands at the cursor.
- `Parser.choice`, `Parser.optional`, `Parser.zeroOrMore`, `Parser.oneOrMore`.
- `SyntaxError`: a failure with the text it occurred in.
-/

namespace ValueGrammar

/-- A place in a text: how many characters come before it, and those that come after. -/
structure Cursor where
  location : Nat
  rest : List Char
  deriving Repr, DecidableEq, Inhabited

namespace Cursor

/-- The place after `n` characters; it may lie beyond the end of the text. -/
def ofLocation (text : List Char) (n : Nat) : Cursor := ⟨n, text.drop n⟩

/-- The start of a text. -/
def start (text : List Char) : Cursor := ⟨0, text⟩

/-- The place `n` characters further on. -/
def advance (c : Cursor) (n : Nat) : Cursor := ⟨c.location + n, c.rest.drop n⟩

end Cursor

/-- Why a parser failed. -/
inductive Failure where
  /-- another alternative may still succeed -/
  | backtrack (message : String) (offset : Nat)
  /-- the text is wrong, whatever else is tried -/
  | thrown (message : String) (offset : Nat)
  deriving Repr, DecidableEq, Inhabited

namespace Failure

/-- The message, and the place where it happened. -/
def text : Failure → String
  | .backtrack message offset => message ++ " @ " ++ toString offset
  | .thrown message offset => message ++ " @ " ++ toString offset

end Failure

/-- A function from the cursor to a value or a failure, and to the cursor afterwards. -/
def Parser (α : Type) : Type := Cursor → Except Failure α × Cursor

namespace Parser

variable {α β : Type}

/-- Succeeds without moving. -/
def succeed (a : α) : Parser α := fun c => (.ok a, c)

/-- Runs a parser, then the one made of its value. -/
def andThen (p : Parser α) (f : α → Parser β) : Parser β := fun c =>
  match p c with
  | (.ok a, c') => f a c'
  | (.error e, c') => (.error e, c')

instance : Monad Parser where
  pure := succeed
  bind := andThen

/-- The cursor. -/
def cursor : Parser Cursor := fun c => (.ok c, c)

/-- Moves the cursor. -/
def moveTo (c : Cursor) : Parser Unit := fun _ => (.ok (), c)

/-- Skips `n` characters. -/
def skip (n : Nat) : Parser Unit := fun c => (.ok (), c.advance n)

/-- Fails with the given failure. -/
def fail (e : Failure) : Parser α := fun c => (.error e, c)

/-- Fails at the cursor in a way the alternatives recover from. -/
def backtrack (message : String) : Parser α := fun c => (.error (.backtrack message c.location), c)

/-- Fails at the cursor for good. -/
def throw (message : String) : Parser α := fun c => (.error (.thrown message c.location), c)

/-- The character at the cursor. -/
def peek : Parser (Option Char) := fun c => (.ok c.rest.head?, c)

/-- Takes any character. -/
def anyChar : Parser Char := do
  match ← peek with
  | some x =>
    skip 1
    return x
  | none => backtrack "Unexpected end of input"

/-- Takes the given character. -/
def char (x : Char) : Parser Char := do
  match ← peek with
  | some y =>
    if x = y then anyChar
    else backtrack ("Expected `" ++ x.toString ++ "` but got `" ++ y.toString ++ "`")
  | none => backtrack ("Expected `" ++ x.toString ++ "` but got end of input")

/-- Takes the characters of a list one after the other. -/
def chars : List Char → Parser Unit
  | [] => pure ()
  | x :: xs => do
    let _ ← char x
    chars xs

/-- Takes a whole literal, or stays where it is. -/
def literal (s : String) : Parser String := fun c =>
  match chars s.toList c with
  | (.ok (), c') => (.ok s, c')
  | (.error _, _) => backtrack ("Expected `" ++ s ++ "`") c

/-- Takes the characters `p` holds of. -/
def takeWhile (p : Char → Bool) : Parser (List Char) := fun c =>
  let taken := c.rest.takeWhile p
  (.ok taken, c.advance taken.length)

/-- Tries alternatives from one place and answers with the first that succeeds. If none does the
last failure counts, and the cursor is back where it was; a failure thrown ends the search. -/
def choiceAfter (last : Option Failure) : List (Parser α) → Parser α
  | [] => fun c =>
    match last with
    | some e => (.error e, c)
    | none => backtrack "Choice Error" c
  | p :: ps => fun c =>
    match p c with
    | (.ok a, c') => (.ok a, c')
    | (.error (.thrown m o), _) => (.error (.thrown m o), c)
    | (.error e, _) => choiceAfter (some e) ps c

/-- The first alternative that succeeds. -/
def choice (ps : List (Parser α)) : Parser α := choiceAfter none ps

/-- A value if the parser succeeds, nothing if it backtracks. -/
def optional (p : Parser α) : Parser (Option α) :=
  choice [some <$> p, pure none]

/-- The values of a parser until it fails, after the values `found` so far, the latest first. An
attempt that fails is undone. Nothing bounds the loop: it ends if the parser fails at last. -/
def zeroOrMoreAfter (p : Parser α) (found : List α) (c : Cursor) :
    Except Failure (List α) × Cursor :=
  match p c with
  | (.ok a, c') => p |>.zeroOrMoreAfter (a :: found) c'
  | (.error (.thrown m o), _) => (.error (.thrown m o), c)
  | (.error (.backtrack _ _), _) => (.ok found.reverse, c)
partial_fixpoint

/-- The values of a parser until it backtracks. -/
def zeroOrMore (p : Parser α) : Parser (List α) := zeroOrMoreAfter p []

/-- Like `zeroOrMore`, but the first time must succeed. -/
def oneOrMore (p : Parser α) : Parser (List α) := do
  let a ← p
  let as ← zeroOrMore p
  return a :: as

/-- Skips white space. -/
def skipSpaces : Parser Unit := do
  let _ ← takeWhile Scan.isSpace

end Parser

/-- Where and why a text is not of the definition syntax. -/
structure SyntaxError where
  message : String
  source : String
  offset : Nat
  deriving Repr, DecidableEq, Inhabited

namespace SyntaxError

/-- The message, the text, and a caret under the place. -/
def text (e : SyntaxError) : String :=
  e.message ++ "\n  " ++ e.source ++ "\n--" ++ Text.times e.offset "-" ++ "^"

/-- A failure as an error of the text it occurred in; a place beyond the end counts as the end. -/
def make (source message : String) (offset : Nat) : SyntaxError :=
  ⟨message, source, min offset source.length⟩

end SyntaxError

end ValueGrammar
