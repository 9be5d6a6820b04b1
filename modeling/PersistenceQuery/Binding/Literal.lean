import PersistenceQuery.Fault
import PersistenceQuery.Text.Quoted

/-!
# Literals

The text of a value in a query.  Some values have none and can only be bound to a parameter.

## Main definitions

* `Value.literal` — the literal of a value, or why it has none.
-/

namespace PersistenceQuery

open Text

/-- A temporal literal: a marker and a quoted text between braces. -/
def markedLiteral (marker text : String) : String :=
  "\x7b" ++ marker ++ " " ++ quote text ++ "\x7d"

/-- The literal of a finite number: a point shows that it is not an integer. -/
def floatLiteral (x : Binary64) : List Char :=
  let digits := Decimal.Layout.plain.write x
  if digits.contains '.' then digits else digits ++ ['.', '0']

/-- The literal of a value, or the reason why there is none. -/
def Value.literal : Value → Except ValueFault String
  | .null => .ok "NULL"
  | .bool b => .ok (if b then "TRUE" else "FALSE")
  | .int n => .ok (toString n.toInt)
  | .float x =>
    if x.isFinite then .ok (String.ofList (floatLiteral x)) else .error (.notFinite x)
  | .string s => .ok (quote s)
  | .date d => .ok (markedLiteral "d" d.text)
  | .time t =>
    if t.isWholeSecond then .ok (markedLiteral "t" t.text) else .error (.fractionalTime t)
  | .timestamp t => .ok (markedLiteral "ts" t.text)
  | .enum typeName constant =>
    if typeName.isEmpty || constant.isEmpty then .error .incompleteEnum
    else .ok (typeName ++ "." ++ constant)
  | .bytes data => .error (.binary data.length)

end PersistenceQuery
