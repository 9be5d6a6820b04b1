import PersistenceQuery.Binding.Bindings
import PersistenceQuery.Exchange.Value

/-!
# Bindings in JSON

Parameters are exchanged as an object with a field for each name.  They are written in the tagged
form; on the way in plain values are understood too.

## Main definitions

* `Bindings.toJson` — the object of the tagged values.
* `Value.ofGiven?` — a value in either form.
* `Bindings.ofFields` — the bindings of an object's fields, or the name of a field with no value.
-/

namespace PersistenceQuery

/-- The names with their tagged values. -/
def Bindings.toJson (b : Bindings) : Json :=
  .object (b.entries.map fun (name, v) => (name, v.tagged))

/-- A value in its plain form, or else in its tagged form. -/
def Value.ofGiven? (j : Json) : Option Value := (Value.ofPlain? j).or (Value.ofTagged? j)

/-- A name with the value given for it. -/
def readField (field : String × Json) : Except String (String × Value) :=
  match Value.ofGiven? field.2 with
  | some v => .ok (field.1, v)
  | none => .error field.1

/-- The bindings of fields.  The first field without a value makes them fail, with its name. -/
def Bindings.ofFields (fields : List (String × Json)) : Except String Bindings := do
  let entries ← fields.mapM readField
  return .ofList entries

end PersistenceQuery
