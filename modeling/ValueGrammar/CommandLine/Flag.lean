import ValueGrammar.Text.Quoted

/-!
# `ValueGrammar.CommandLine.Flag` — reading the flags of a command line

A flag is an argument that starts with one hyphen or two. Its value follows an equals sign, or is
the next argument; a switch does not look at the next argument. Flags end at the first argument that
is none, or after two hyphens alone.

## Contents
- `Flag`: how one flag changes a record of options.
- `FlagError`, `Flag.parse`.
-/

namespace ValueGrammar

/-- A flag of a program with options of type `α`. -/
structure Flag (α : Type) where
  name : String
  /-- a flag that stands for `true` if it has no value -/
  switch : Bool
  /-- the options after the flag was given a value, if it is one -/
  set : String → α → Option α

/-- Why flags could not be read. -/
inductive FlagError where
  /-- the program is asked to explain itself -/
  | help
  | badForm (argument : String)
  | unknown (name : String)
  | noValue (name : String)
  | badValue (name value : String)
  deriving Repr, DecidableEq, Inhabited

namespace FlagError

/-- The message for people. -/
def message : FlagError → String
  | .help => "flag: help requested"
  | .badForm argument => "bad flag syntax: " ++ argument
  | .unknown name => "flag provided but not defined: -" ++ name
  | .noValue name => "flag needs an argument: -" ++ name
  | .badValue name value => "invalid value " ++ Text.quote value ++ " for flag -" ++ name

end FlagError

namespace Flag

variable {α : Type}

/-- The readings of a truth value. -/
def bool? (s : String) : Option Bool :=
  if ["1", "t", "T", "true", "TRUE", "True"].contains s then some true
  else if ["0", "f", "F", "false", "FALSE", "False"].contains s then some false
  else none

/-- A flag for a text. -/
def text (name : String) (set : String → α → α) : Flag α := ⟨name, false, fun v o => some (set v o)⟩

/-- A flag for a truth value. -/
def onOff (name : String) (set : Bool → α → α) : Flag α :=
  ⟨name, true, fun v o => (bool? v).map fun b => set b o⟩

/-- The name and the value in an argument without its hyphens. -/
def splitValue (body : List Char) : String × Option String :=
  match body with
  | [] => ("", none)
  | c :: rest =>
    let name := rest.takeWhile (· != '=')
    let value := match rest.drop name.length with
      | [] => none
      | _ :: v => some (String.ofList v)
    (String.ofList (c :: name), value)

/-- The role of an argument. -/
inductive Role where
  /-- an argument that is no flag -/
  | operand
  /-- the mark that ends the flags -/
  | terminator
  | malformed
  | flag (name : String) (value : Option String)
  deriving Repr, DecidableEq, Inhabited

/-- The role of an argument. -/
def role (argument : String) : Role :=
  let body (cs : List Char) : Role :=
    match cs with
    | '-' :: _ => .malformed
    | '=' :: _ => .malformed
    | cs => let (name, value) := splitValue cs; .flag name value
  match argument.toList with
  | '-' :: '-' :: [] => .terminator
  | '-' :: '-' :: cs => body cs
  | '-' :: c :: cs => body (c :: cs)
  | _ => .operand

/-- Sets a flag. -/
def assign (f : Flag α) (value : String) (options : α) : Except FlagError α :=
  match f.set value options with
  | some o => .ok o
  | none => .error (.badValue f.name value)

/-- Reads flags from the start of the arguments. Those after them are left aside. -/
def parse (flags : List (Flag α)) : List String → α → Except FlagError α
  | [], options => .ok options
  | argument :: rest, options =>
    match role argument with
    | .operand => .ok options
    | .terminator => .ok options
    | .malformed => .error (.badForm argument)
    | .flag name value =>
      match flags.find? (·.name == name) with
      | none => .error (if name = "help" ∨ name = "h" then .help else .unknown name)
      | some f =>
        match value, rest with
        | some v, rest => do parse flags rest (← f.assign v options)
        | none, [] =>
          if f.switch then f.assign "true" options else .error (.noValue name)
        | none, next :: rest' =>
          if f.switch then do parse flags (next :: rest') (← f.assign "true" options)
          else do parse flags rest' (← f.assign next options)
termination_by args => args.length

end Flag

end ValueGrammar
