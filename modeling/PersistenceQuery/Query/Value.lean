import PersistenceQuery.Calendar.Timestamp
import PersistenceQuery.Decimal.Layout

/-!
# Values

The values that a query holds as literals or receives through its parameters.

## Main definitions

* `Value` — the ten types of values.
* `Value.typeName`, `Value.text` — the name of a value's type, and the value as it is shown.
-/

namespace PersistenceQuery

/-- A value in a query or bound to a parameter. -/
inductive Value
  /-- The absence of a value. -/
  | null
  /-- A truth value. -/
  | bool (b : Bool)
  /-- An integer of 64 bits. -/
  | int (n : Int64)
  /-- A floating point number. -/
  | float (x : Binary64)
  /-- A text. -/
  | string (s : String)
  /-- A day. -/
  | date (d : Date)
  /-- A time of day. -/
  | time (t : Clock)
  /-- A time on a day. -/
  | timestamp (t : Timestamp)
  /-- A constant of an enumeration type. -/
  | enum (typeName constant : String)
  /-- Binary data, which has no literal. -/
  | bytes (data : List UInt8)
  deriving DecidableEq

namespace Value

/-- The value is `null`. -/
def isNull : Value → Bool
  | null => true
  | _ => false

/-- The name of the value's type. -/
def typeName : Value → String
  | null => "null"
  | bool _ => "bool"
  | int _ => "int"
  | float _ => "float"
  | string _ => "string"
  | date _ => "date"
  | time _ => "time"
  | timestamp _ => "timestamp"
  | enum _ _ => "enum"
  | bytes _ => "bytes"

/-- A truth value in small letters. -/
def boolText (b : Bool) : String := if b then "true" else "false"

/-- The value as it is shown to a reader. -/
def text : Value → String
  | null => "null"
  | bool b => boolText b
  | int n => toString n.toInt
  | float x => String.ofList (Decimal.Layout.plain.write x)
  | string s => "\"" ++ s ++ "\""
  | date d => d.text
  | time t => t.text
  | timestamp t => t.text
  | enum typeName constant => typeName ++ "." ++ constant
  | bytes data => "<" ++ toString data.length ++ " bytes>"

end Value
end PersistenceQuery
