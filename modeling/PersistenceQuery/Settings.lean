import PersistenceQuery.Binding.Binder
import PersistenceQuery.Rendering.Dialect
import PersistenceQuery.Sorted

/-!
# Settings

What a user may set: the mode, where none is asked for, and the keywords of the built-in calls.

## Main definitions

* `Settings`, `Settings.setFunction` — the settings, with one keyword more.
* `Settings.dialect` — the standard rules with the keywords that are set.
-/

namespace PersistenceQuery

open Text

/-- What can be set. -/
structure Settings where
  mode : Mode
  /-- Keywords by the kinds of calls, in the order of the kinds. -/
  functions : List (String × String)
  deriving DecidableEq

namespace Settings

/-- Nothing is set: literals are bound, and the calls have their own keywords. -/
def initial : Settings := ⟨default, []⟩

instance : Inhabited Settings := ⟨initial⟩

/-- Sets the mode. -/
def setMode (s : Settings) (mode : Mode) : Settings := { s with mode := mode }

/-- Sets the keyword for a kind of call. -/
def setFunction (s : Settings) (kind keyword : String) : Settings :=
  { s with functions := Sorted.set kind keyword s.functions }

/-- Sets keywords one after the other. -/
def setFunctions (s : Settings) (functions : List (String × String)) : Settings :=
  functions.foldl (fun s e => s.setFunction e.1 e.2) s

/-- Takes the keyword for a kind into a dialect: the kind must be one of the built-in calls, and
the keyword more than blanks. -/
def configure (D : Dialect) (entry : String × String) : Except Fault Dialect :=
  if !(callKeywords.map Prod.fst).contains entry.1 then
    .error (.settings (.unknownFunction entry.1))
  else if isBlankText entry.2 then .error (.settings (.blankKeyword entry.1))
  else .ok (D.insert (.call entry.1 entry.2))

/-- The standard rules with the keywords that are set; the first entry that is wrong is a fault. -/
def dialect (s : Settings) : Except Fault Dialect := s.functions.foldlM configure Dialect.standard

end Settings
end PersistenceQuery
