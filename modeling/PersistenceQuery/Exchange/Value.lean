import PersistenceQuery.Json.Basic
import PersistenceQuery.Query.Value

/-!
# Values in JSON

A value is exchanged in one of two forms: tagged with its type, which tells all values apart, or
plain, as the JSON value nearest to it.

## Main definitions

* `Value.tagged`, `Value.ofTagged?` — the tagged form: an object of the type and the value.
* `Value.plain`, `Value.ofPlain?` — the plain form; arrays and objects are no plain values.
-/

namespace PersistenceQuery

/-! ### Simple JSON values -/

namespace Json

def text? : Json → Option String
  | string s => some s
  | _ => none

def flag? : Json → Option Bool
  | bool b => some b
  | _ => none

/-- An integer of 64 bits with sign. -/
def int64? : Json → Option Int64
  | integer n =>
    if Int64.minValue.toInt ≤ n ∧ n ≤ Int64.maxValue.toInt then some (Int64.ofInt n) else none
  | _ => none

/-- An integer of 8 bits without sign. -/
def byte? : Json → Option UInt8
  | integer n => if 0 ≤ n ∧ n < 256 then some (UInt8.ofNat n.toNat) else none
  | _ => none

/-- Any number. -/
def float? : Json → Option Binary64
  | integer n => Binary64.ofInt n
  | real x => some x
  | _ => none

/-- A string of one character. -/
def character? : Json → Option Char
  | string s =>
    match s.toList with
    | [c] => some c
    | _ => none
  | _ => none

/-- An array whose items are all read. -/
def list? {α : Type} (read : Json → Option α) : Json → Option (List α)
  | array items => items.mapM read
  | _ => none

/-- The name of a choice without anything more: a string, or an object with nothing at it. -/
def choice? : Json → Option String
  | string s => some s
  | object [(s, null)] => some s
  | _ => none

/-- An object has a key at most once. -/
def hasOnce (fields : List (String × Json)) (key : String) : Bool :=
  (fields.filter (·.1 == key)).length ≤ 1

end Json

/-! ### The tagged form -/

namespace Value

/-- The value itself, if its type does not say all. -/
def payload? : Value → Option Json
  | null => none
  | bool b => some (.bool b)
  | int n => some (.integer n.toInt)
  | float x => some (.ofBinary64 x)
  | string s => some (.string s)
  | date d => some (.string d.text)
  | time t => some (.string t.text)
  | timestamp t => some (.string t.exchangeText)
  | enum typeName constant =>
    some (.object [("type_name", .string typeName), ("constant", .string constant)])
  | bytes data => some (.array (data.map fun b => .integer b.toNat))

/-- The value with its type. -/
def tagged (v : Value) : Json :=
  .object (("type", .string v.typeName) :: (v.payload?.map (("value", ·))).toList)

/-- The value of a type name and a payload. -/
def ofPayload? (typeName : String) (payload : Json) : Option Value :=
  if typeName = "null" then
    match payload with
    | .null => some null
    | _ => none
  else if typeName = "bool" then payload.flag?.map bool
  else if typeName = "int" then payload.int64?.map int
  else if typeName = "float" then payload.float?.map float
  else if typeName = "string" then payload.text?.map string
  else if typeName = "date" then (payload.text?.bind Date.ofText?).map date
  else if typeName = "time" then (payload.text?.bind Clock.ofText?).map time
  else if typeName = "timestamp" then (payload.text?.bind Timestamp.ofText?).map timestamp
  else if typeName = "enum" then
    match payload with
    | .object fields =>
      if Json.hasOnce fields "type_name" && Json.hasOnce fields "constant" then do
        let typeName ← (fields.lookup "type_name").bind Json.text?
        let constant ← (fields.lookup "constant").bind Json.text?
        some (enum typeName constant)
      else none
    | _ => none
  else if typeName = "bytes" then (payload.list? Json.byte?).map bytes
  else none

/-- A payload that is written before its type is read without knowing what is skipped in it, so
nothing in it may be unreadable. -/
def isReadableEarly (fields : List (String × Json)) (payload : Json) : Bool :=
  fields.findIdx (·.1 == "type") < fields.findIdx (·.1 == "value") || payload.isReadable

/-- The value of a tagged form: an object with a type and a value, or an array of the two.  Only
the type `null` needs no value. -/
def ofTagged? : Json → Option Value
  | .object fields =>
    if Json.hasOnce fields "type" && Json.hasOnce fields "value" then do
      let typeName ← (fields.lookup "type").bind Json.choice?
      match fields.lookup "value" with
      | some payload =>
        if isReadableEarly fields payload then ofPayload? typeName payload else none
      | none => if typeName = "null" then some null else none
    else none
  | .array [typeName, payload] => do
    let typeName ← typeName.choice?
    ofPayload? typeName payload
  | _ => none

/-! ### The plain form -/

/-- The value as plain JSON: dates, times and constants become strings. -/
def plain : Value → Json
  | null => .null
  | bool b => .bool b
  | int n => .integer n.toInt
  | float x => .ofBinary64 x
  | string s => .string s
  | date d => .string d.text
  | time t => .string t.text
  | timestamp t => .string t.text
  | enum typeName constant => .string (typeName ++ "." ++ constant)
  | bytes data => .array (data.map fun b => .integer b.toNat)

/-- The value of a plain form.  An integer past the integers of 64 bits is a floating point
number. -/
def ofPlain? : Json → Option Value
  | .null => some null
  | .bool b => some (bool b)
  | .integer n =>
    match (Json.integer n).int64? with
    | some i => some (int i)
    | none => (Binary64.ofInt n).map float
  | .real x => some (float x)
  | .string s => some (string s)
  | .array _ | .object _ | .unreadable => none

end Value
end PersistenceQuery
