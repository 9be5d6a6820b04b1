/-!
# Commands

What the program can be asked for on its command line.

## Main definitions

* `Console.Command`, `Console.Invocation` — a command, and a command with its settings file.
* `Console.Invocation.ofArguments?` — the invocation that a list of arguments is.
-/

namespace PersistenceQuery
namespace Console

/-- How a rendered query is shown. -/
inductive Format
  | text
  | json
  deriving DecidableEq, Repr

/-- A command. -/
inductive Command
  /-- Renders the query of a file, or of the standard input if the file is `-`. -/
  | render (query : String) (params : Option String) (inline : Bool) (format : Format)
  /-- Lists the kinds of nodes that can be rendered. -/
  | kinds
  deriving DecidableEq, Repr

/-- A command, and the settings file that is asked for. -/
structure Invocation where
  settings : Option String
  command : Command
  deriving DecidableEq, Repr

/-! ### Arguments -/

/-- What was found among the arguments so far. -/
structure Arguments where
  settings : Option String
  positional : List String
  params : Option String
  inline : Bool
  format : Format

namespace Arguments

/-- Nothing was found. -/
def empty : Arguments := ⟨none, [], none, false, .text⟩

/-- The format with a name. -/
def format? : String → Option Format
  | "text" => some .text
  | "json" => some .json
  | _ => none

/-- Takes an option that has a value. -/
def take? (a : Arguments) (option value : String) : Option Arguments :=
  match option with
  | "--config" => some { a with settings := some value }
  | "--params" | "-p" => some { a with params := some value }
  | "--format" | "-f" => (format? value).map fun f => { a with format := f }
  | _ => none

/-- An argument that is an option: it starts with a hyphen and is longer. -/
def isOption (argument : String) : Bool := argument.startsWith "-" && argument != "-"

/-- Takes the arguments one after the other. -/
def takeAll? (a : Arguments) : List String → Option Arguments
  | [] => some a
  | [argument] =>
    if argument = "--inline" then some { a with inline := true }
    else if argument = "--verbose" ∨ argument = "-v" then some a
    else if isOption argument then none
    else some { a with positional := a.positional ++ [argument] }
  | argument :: value :: rest =>
    if argument = "--inline" then takeAll? { a with inline := true } (value :: rest)
    else if argument = "--verbose" ∨ argument = "-v" then takeAll? a (value :: rest)
    else if isOption argument then (a.take? argument value).bind (takeAll? · rest)
    else takeAll? { a with positional := a.positional ++ [argument] } (value :: rest)

end Arguments

/-- The invocation of a list of arguments; the settings file may also be named by `named`, which an
argument overrides. -/
def Invocation.ofArguments? (named : Option String) (arguments : List String) :
    Option Invocation := do
  let a ← Arguments.empty.takeAll? arguments
  let settings := a.settings.or named
  match a.positional with
  | ["render", query] => some ⟨settings, .render query a.params a.inline a.format⟩
  | ["kinds"] => some ⟨settings, .kinds⟩
  | _ => none

end Console
end PersistenceQuery
