import PersistenceQuery.Decimal.Numeral
import PersistenceQuery.Sorted

/-!
# JSON values

The values of JSON, with the fields of an object in their order and as often as they were written.

## Main definitions

* `Json` — a value.
* `Json.isReadable` — the value holds nothing that was only skipped.
* `Json.settled` — the value with each key of an object once, the last one, in the order of keys.
* `Json.ofNumeral` — the value of a number: an integer where one of 64 bits is written, and
  elsewhere the floating point number found in steps from the digits that fit.
-/

namespace PersistenceQuery

/-- A JSON value. -/
inductive Json
  | null
  | bool (b : Bool)
  /-- A number written as an integer of 64 bits, with or without sign. -/
  | integer (n : Int)
  /-- Any other number. -/
  | real (x : Binary64)
  | string (s : String)
  | array (items : List Json)
  | object (fields : List (String × Json))
  /-- Well formed text that stands for no value: a number past the greatest, a string with half a
  character, or a value inside too many others.  It may only be skipped. -/
  | unreadable

namespace Json

mutual

/-- Nothing in the value is unreadable. -/
def isReadable : Json → Bool
  | .unreadable => false
  | .array items => areReadable items
  | .object fields => fieldsReadable fields
  | _ => true

/-- Nothing in the items is unreadable. -/
def areReadable : List Json → Bool
  | [] => true
  | j :: js => j.isReadable && areReadable js

/-- Nothing in the fields is unreadable. -/
def fieldsReadable : List (String × Json) → Bool
  | [] => true
  | (_, j) :: fields => j.isReadable && fieldsReadable fields

end

/-- The fields with each key once, the last one, in the order of keys. -/
def settle (fields : List (String × Json)) : List (String × Json) := Sorted.ofList fields

mutual

/-- The value with every object settled. -/
def settled : Json → Json
  | .array items => .array (settledItems items)
  | .object fields => .object (settle (settledFields fields))
  | .null => .null
  | .bool b => .bool b
  | .integer n => .integer n
  | .real x => .real x
  | .string s => .string s
  | .unreadable => .unreadable

/-- The items settled. -/
def settledItems : List Json → List Json
  | [] => []
  | j :: js => j.settled :: settledItems js

/-- The values of the fields settled. -/
def settledFields : List (String × Json) → List (String × Json)
  | [] => []
  | (k, j) :: fields => (k, j.settled) :: settledFields fields

end

/-- The field of an object with a key. -/
def field? (j : Json) (key : String) : Option Json :=
  match j with
  | .object fields => fields.lookup key
  | _ => none

/-- The integers that numbers are kept as: those of 64 bits, with or without sign. -/
def isWideInteger (n : Int) : Bool := Int64.minValue.toInt ≤ n && n < UInt64.size

/-- The value of a number.  A negative zero is no integer. -/
def ofNumeral (n : Decimal.Numeral) : Json :=
  let signed : Int := if n.negative then -(n.mantissa : Int) else n.mantissa
  if n.isWhole && !(n.negative && n.mantissa == 0) && isWideInteger signed then .integer signed
  else match n.stepwise? with
    | some x => .real x
    | none => .unreadable

/-- A number, or `null` if it is not finite. -/
def ofBinary64 (x : Binary64) : Json := if x.isFinite then .real x else .null

end Json
end PersistenceQuery
