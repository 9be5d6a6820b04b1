import PersistenceQuery.Settings
import PersistenceQuery.Toml.Reader

/-!
# Settings files

Settings are written in TOML: the key `mode` holds the name of a mode, and the table `functions`
holds keywords by the kinds of calls.  Both may be left out, and there is nothing else.  A date-time
counts as a table, whose one key is reserved for that.

## Main definitions

* `Settings.ofText` — the settings of a file's text, or the fault that it is unreadable.
-/

namespace PersistenceQuery
namespace Settings

open Toml

/-- A table or list without anything in it. -/
def isEmptyAt (d : Document) (path : List String) : Bool :=
  match d.item? path with
  | some .emptyList => true
  | some (.table _) => (d.children path).isEmpty
  | _ => false

/-- The mode of a document: its name, or a table in which its name is the only key, with nothing
at it. -/
def modeOf? (d : Document) : Option Mode :=
  match d.item? ["mode"] with
  | none => some default
  | some (.text name) => Mode.ofName? name
  | some (.dateTime _) | some .emptyList => none
  | some (.table _) =>
    match d.children ["mode"] with
    | [(name, _)] => if isEmptyAt d ["mode", name] then Mode.ofName? name else none
    | _ => none

/-- The keyword of a kind. -/
def keyword? : String × Item → Option (String × String)
  | (kind, .text keyword) => some (kind, keyword)
  | _ => none

/-- The key of the table that a date-time counts as. -/
def dateTimeKey : String := "$__toml_private_datetime"

/-- The keywords of a document. -/
def functionsOf? (d : Document) : Option (List (String × String)) :=
  match d.item? ["functions"] with
  | none => some []
  | some (.table _) => (d.children ["functions"]).mapM keyword?
  | some (.dateTime t) => some [(dateTimeKey, t.text)]
  | some _ => none

/-- The settings of a document. -/
def ofDocument? (d : Document) : Option Settings := do
  let keys := (d.children []).map Prod.fst
  if keys.all (["mode", "functions"].contains ·) then
    let mode ← modeOf? d
    let functions ← functionsOf? d
    some (setFunctions ⟨mode, []⟩ functions)
  else none

/-- The settings of a file's text. -/
def ofText (s : String) : Except Fault Settings :=
  match (Document.ofText? s).bind ofDocument? with
  | some settings => .ok settings
  | none => .error (.settings .unreadable)

end Settings
end PersistenceQuery
