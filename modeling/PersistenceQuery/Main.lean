import PersistenceQuery.Console.Run

/-!
# The program

Renders the query of a file from the command line.  Only here are files, streams and variables of
the environment touched; what is printed is decided by `Console.run`.
-/

namespace PersistenceQuery
namespace Console

/-- What is found at a path on the disk. -/
def lookAt (path : String) : IO File := do
  try
    return .text (← IO.FS.readFile path)
  catch
    | .noFileOrDirectory .. => return .absent
    | e => return .locked (toString e)

/-- A variable that is set to anything but `0`. -/
def isOn (value : Option String) : Bool := (value.map (· != "0")).getD false

/-- Colours are wanted: they are forced, or the output is a terminal and nothing forbids them. -/
def wantsColours (force plain choice : Option String) (terminal : Bool) : Bool :=
  isOn force || (plain.isNone && (choice.map (· != "0")).getD true && terminal)

/-- Where settings are looked for: in the working directory, then in that of the user. -/
def settingsPlaces (configured home : Option String) : List String :=
  let directory := match configured with
    | some path => if path.startsWith "/" then some path else home.map (· ++ "/.config")
    | none => home.map (· ++ "/.config")
  "jpql.toml" :: (directory.map (· ++ "/jpql/config.toml")).toList

/-- The files that an invocation may need. -/
def filesOf (places : List String) (i : Invocation) : List String :=
  let named := match i.command with
    | .render query params _ _ => (if query = "-" then [] else [query]) ++ params.toList
    | .kinds => []
  i.settings.toList ++ named ++ (if i.settings.isSome then [] else places)

/-- The standard input, if the query is read from it. -/
def inputOf (i : Invocation) : IO String := do
  match i.command with
  | .render "-" .. => (← IO.getStdin).readToEnd
  | _ => return ""

/-- What the program finds around it for an invocation. -/
def surroundingsOf (i : Invocation) : IO Surroundings := do
  let places := settingsPlaces (← IO.getEnv "XDG_CONFIG_HOME") (← IO.getEnv "HOME")
  let files ← (filesOf places i).mapM fun path => return (path, ← lookAt path)
  let terminal ← (← IO.getStdout).isTty
  let colored := wantsColours (← IO.getEnv "CLICOLOR_FORCE") (← IO.getEnv "NO_COLOR")
    (← IO.getEnv "CLICOLOR") terminal
  return ⟨fun path => (files.lookup path).getD .absent, ← inputOf i, places, colored⟩

/-- How the program is called. -/
def usage : String :=
  "usage: jpql [--config FILE] render QUERY [--params FILE] [--inline] [--format text|json]\n"
    ++ "       jpql [--config FILE] kinds"

end Console
end PersistenceQuery

open PersistenceQuery Console in
/-- Runs the command that the arguments say. -/
def main (arguments : List String) : IO UInt32 := do
  match Invocation.ofArguments? (← IO.getEnv "JPQL_CONFIG") arguments with
  | none =>
    IO.eprintln usage
    return 2
  | some invocation =>
    let outcome := run (← surroundingsOf invocation) invocation
    IO.print outcome.output
    IO.eprint outcome.errors
    return outcome.exitCode.toUInt32
