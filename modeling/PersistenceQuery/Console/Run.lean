import PersistenceQuery.Console.Command
import PersistenceQuery.Console.Style
import PersistenceQuery.Exchange.Bindings
import PersistenceQuery.Exchange.Decode
import PersistenceQuery.Json.Printer
import PersistenceQuery.Json.Reader
import PersistenceQuery.Rendering.Rendered
import PersistenceQuery.Settings.File

/-!
# Running commands

What a command prints, as a function of the files and the input that it finds.  Settings are read
first, from the file that is asked for or else from the first place that has one; then come the
query, the parameters and the rendering.

## Main definitions

* `Console.Surroundings` — the files, the standard input, and where settings are looked for.
* `Console.Refusal` — why a command fails.
* `Console.run` — the outcome of an invocation.
-/

namespace PersistenceQuery
namespace Console

/-- What is found at a path. -/
inductive File
  | absent
  | text (s : String)
  /-- A file that cannot be read, and why. -/
  | locked (reason : String)
  deriving DecidableEq

/-- What the program finds around it. -/
structure Surroundings where
  file : String → File
  /-- The text of the standard input. -/
  input : String
  /-- Where settings are looked for if no file is asked for. -/
  places : List String
  /-- Output is shown in colours. -/
  colored : Bool

/-- Why a command fails. -/
inductive Refusal
  /-- The settings file that was asked for, or was found, cannot be read. -/
  | closedSettings (asked : Option String) (reason : String)
  /-- The settings file that was asked for, or was found, is wrong. -/
  | wrongSettings (asked : Option String) (fault : Fault)
  /-- A file cannot be read. -/
  | closedFile (path reason : String)
  /-- A file holds no query. -/
  | notAQuery (path : String)
  /-- A file of parameters holds something else than an object. -/
  | notAnObject (path : String)
  /-- No value can be made of what is given for a parameter. -/
  | noValue (name : String)
  | fault (f : Fault)
  deriving DecidableEq

/-- Where the settings come from, in front of a message. -/
def settingsContext : Option String → String
  | none => ""
  | some path => "failed to load config " ++ path ++ ": "

def Refusal.message : Refusal → String
  | closedSettings asked reason => settingsContext asked ++ "IO error: " ++ reason
  | wrongSettings asked cause => settingsContext asked ++ cause.message
  | closedFile path reason => "failed to read " ++ path ++ ": " ++ reason
  | notAQuery path => path ++ " is not a valid query model"
  | notAnObject path => path ++ " must hold a JSON object"
  | noValue name => "parameter " ++ inQuotes name ++ " has no literal form"
  | fault f => f.message

/-- What a command leaves: its exit code and what it printed. -/
structure Outcome where
  exitCode : Nat
  output : String
  errors : String
  deriving DecidableEq

/-! ### Reading -/

/-- Why a file that is not there cannot be read. -/
def absenceReason : String := "No such file or directory (os error 2)"

/-- The text of a file, or the reason why it cannot be read. -/
def File.read : File → Except String String
  | text s => .ok s
  | absent => .error absenceReason
  | locked reason => .error reason

/-- The settings in a file. -/
def readSettings (asked : Option String) (file : File) : Except Refusal Settings :=
  match file.read with
  | .error reason => .error (.closedSettings asked reason)
  | .ok text => (Settings.ofText text).mapError (.wrongSettings asked)

/-- The settings at the first of some places that has a file; where none has, nothing is set. -/
def findSettings (s : Surroundings) : List String → Except Refusal Settings
  | [] => .ok .initial
  | place :: places =>
    match s.file place with
    | .absent => findSettings s places
    | file => readSettings none file

/-- The settings that an invocation asks for, or else those that are found. -/
def settingsFor (s : Surroundings) : Option String → Except Refusal Settings
  | some path => readSettings (some path) (s.file path)
  | none => findSettings s s.places

/-- The text of a file, where `-` is the standard input. -/
def readSource (s : Surroundings) (path : String) : Except Refusal String :=
  if path = "-" then .ok s.input else (s.file path).read.mapError (.closedFile path)

/-- The query in a file. -/
def readQuery (s : Surroundings) (path : String) : Except Refusal Query := do
  let text ← readSource s path
  match (Json.ofText? text).bind Query.ofJson? with
  | some query => .ok query
  | none => .error (.notAQuery path)

/-- The values for parameters in a file, which holds an object. -/
def readParams (s : Surroundings) (path : String) : Except Refusal Bindings := do
  let text ← (s.file path).read.mapError (.closedFile path)
  match Json.dataOfText? text with
  | some (.object fields) => (Bindings.ofFields fields).mapError .noValue
  | _ => .error (.notAnObject path)

/-! ### Printing -/

/-- A line of text. -/
def line (text : String) : String := text ++ "\n"

/-- A parameter with its value and type, on a line of the list of parameters. -/
def paramLine (colored : Bool) (entry : String × Value) : String :=
  line ("  :" ++ entry.1 ++ " = " ++ Style.yellow.apply colored entry.2.text ++ " "
    ++ Style.dimmed.apply colored ("(" ++ entry.2.typeName ++ ")"))

/-- A rendered query as text: the type of its rows, the query, and its parameters. -/
def renderedText (colored : Bool) (resultType : Option String) (r : Rendered) : String :=
  let heading := match resultType with
    | some name =>
      line (Style.dimmed.apply colored "Result type:" ++ " " ++ Style.cyan.apply colored name)
    | none => ""
  let params := match r.bindings.entries with
    | [] => ""
    | entries =>
      line "" ++ line (Style.cyan.apply colored "Parameters:")
        ++ String.join (entries.map (paramLine colored))
  heading ++ line (Style.boldWhite.apply colored r.text) ++ params

/-- A rendered query as JSON: its text and the tagged values of its parameters. -/
def renderedJson (r : Rendered) : Json :=
  .object [("query", .string r.text), ("params", r.bindings.toJson)]

/-- A rendered query in a format. -/
def showRendered (colored : Bool) (format : Format) (query : Query) (r : Rendered) : String :=
  match format with
  | .text => renderedText colored query.resultType? r
  | .json => line (renderedJson r).pretty

/-- The kinds that a dialect has rules for, under a heading. -/
def showKinds (colored : Bool) (D : Dialect) : String :=
  line (Style.boldCyan.apply colored "Registered node kinds")
    ++ line (Style.dimmed.apply colored (String.ofList (List.replicate 32 '─')))
    ++ String.join (D.kinds.map fun kind => line ("  " ++ Style.white.apply colored kind))

/-! ### Running -/

/-- What a command prints under given settings. -/
def perform (s : Surroundings) (settings : Settings) (D : Dialect) :
    Command → Except Refusal String
  | .kinds => .ok (showKinds s.colored D)
  | .render path params inline format => do
    let query ← readQuery s path
    let supplied ← params.mapM (readParams s)
    let mode := if inline then .inline else settings.mode
    let rendered ← (query.render D supplied mode).mapError .fault
    .ok (showRendered s.colored format query rendered)

/-- What an invocation prints, or why it fails. -/
def attempt (s : Surroundings) (i : Invocation) : Except Refusal String := do
  let settings ← settingsFor s i.settings
  let D ← settings.dialect.mapError .fault
  perform s settings D i.command

/-- The outcome of an invocation: an invocation that fails prints nothing but why. -/
def run (s : Surroundings) (i : Invocation) : Outcome :=
  match attempt s i with
  | .ok output => ⟨0, output, ""⟩
  | .error refusal =>
    ⟨1, "", line (Style.boldRed.apply s.colored "Error:" ++ " " ++ refusal.message)⟩

end Console
end PersistenceQuery
