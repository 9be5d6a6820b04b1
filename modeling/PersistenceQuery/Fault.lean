import PersistenceQuery.Query.Part

/-!
# Faults

Why a query, a value or a settings file is refused.  A fault holds its cause; the wording is in
`Fault.message` and the messages of the causes alone.

## Main definitions

* `ValueFault`, `ShapeFault`, `DraftFault`, `SettingsFault` — the causes by what they are about.
* `Fault`, `Fault.message` — everything that can stop a rendering, and its wording.
-/

namespace PersistenceQuery

/-- Why a value has no literal. -/
inductive ValueFault
  /-- Infinite, or not a number. -/
  | notFinite (x : Binary64)
  /-- A time that hours, minutes and seconds do not tell. -/
  | fractionalTime (t : Clock)
  /-- An enumeration constant without its type, or without its name. -/
  | incompleteEnum
  /-- Binary data of this many bytes. -/
  | binary (size : Nat)
  deriving DecidableEq

/-- What is wrong with the shape of a query. -/
inductive ShapeFault
  | noAssignments
  | emptySelection
  | noSource
  | unnamedEntity
  | unlabelledEntity (name : String)
  | unconditionalJoin (entity : String)
  | fetchedEntity (entity : String)
  | malformedJoinPath (path : Path)
  | unlabelledJoin (path : Path)
  | invalidParameterName (name : String)
  | emptyMembers
  deriving DecidableEq

/-- Why a draft is not a finished text. -/
inductive DraftFault
  /-- This many parentheses are open. -/
  | unclosed (count : Nat)
  /-- There is nothing but blanks. -/
  | blank
  deriving DecidableEq

/-- What is wrong with settings. -/
inductive SettingsFault
  /-- The text is not a settings file. -/
  | unreadable
  /-- A keyword is set for a kind that is no built-in call. -/
  | unknownFunction (kind : String)
  /-- The keyword set for a kind is blank. -/
  | blankKeyword (kind : String)
  deriving DecidableEq

/-- Why a rendering stops. -/
inductive Fault
  /-- No rule is kept for the kind of a part. -/
  | unsupportedKind (kind : String)
  | unsupportedValue (cause : ValueFault)
  /-- No value is known for a named parameter. -/
  | missingBinding (name : String)
  | invalidShape (cause : ShapeFault)
  /-- The rule for one kind was given a part that it does not fit. -/
  | mismatch (expected found : String)
  | incomplete (cause : DraftFault)
  | settings (cause : SettingsFault)
  deriving DecidableEq

/-! ### Wording -/

/-- A text between single quotes, as messages show names. -/
def inQuotes (s : String) : String := "'" ++ s ++ "'"

def ValueFault.message : ValueFault → String
  | notFinite x =>
    "non-finite float " ++ String.ofList (Decimal.Layout.plain.write x) ++ " has no literal form"
  | fractionalTime t =>
    "time " ++ t.text ++ " has fractional seconds; the time literal only holds hh:mm:ss"
  | incompleteEnum => "enum literal needs a type and a constant"
  | binary size =>
    "binary value (" ++ toString size ++ " bytes) cannot be inlined; bind it as a parameter"

def ShapeFault.message : ShapeFault → String
  | noAssignments => "update query needs at least one assignment"
  | emptySelection => "select list is empty"
  | noSource => "select query has no FROM entity"
  | unnamedEntity => "entity name is empty"
  | unlabelledEntity name => "entity " ++ inQuotes name ++ " has no alias"
  | unconditionalJoin entity => "join of entity " ++ inQuotes entity ++ " needs an ON condition"
  | fetchedEntity entity => "entity join of " ++ inQuotes entity ++ " cannot be a fetch join"
  | malformedJoinPath path => "malformed join path " ++ inQuotes path.text
  | unlabelledJoin path => "join of " ++ inQuotes path.text ++ " has no alias"
  | invalidParameterName name => inQuotes name ++ " is not a valid parameter name"
  | emptyMembers => "IN predicate has an empty value list"

def DraftFault.message : DraftFault → String
  | unclosed count =>
    toString count ++ " unclosed parenthes" ++ (if count = 1 then "is" else "es")
  | blank => "nothing was written"

def SettingsFault.message : SettingsFault → String
  | unreadable => "TOML parse error"
  | unknownFunction kind =>
    "unknown function " ++ inQuotes kind ++ " (configurable: "
      ++ String.intercalate ", " (callKeywords.map Prod.fst) ++ ")"
  | blankKeyword kind => "empty keyword for function " ++ inQuotes kind

def Fault.message : Fault → String
  | unsupportedKind kind =>
    "Unsupported node kind: " ++ inQuotes kind ++ " has no registered serializer"
  | unsupportedValue cause => "Unsupported value: " ++ cause.message
  | missingBinding name =>
    "Missing parameter binding: " ++ inQuotes (":" ++ name) ++ " is referenced but not bound"
  | invalidShape cause => "Invalid query shape: " ++ cause.message
  | mismatch expected found =>
    "Serializer for " ++ inQuotes expected ++ " received a " ++ inQuotes found ++ " node"
  | incomplete cause => "Incomplete output: " ++ cause.message
  | settings cause => "Configuration error: " ++ cause.message

end PersistenceQuery
