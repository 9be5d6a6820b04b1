import PersistenceQuery.Json.Token

/-!
# Reading JSON text

The tokens of a text are taken one by one, with the arrays and objects that are not closed yet on
a stack.

## Main definitions

* `Json.Reader`, `Json.Reader.step` — what was read so far, and one token more.
* `Json.ofText?` — the value of a text, where parts that are skipped may be unreadable.
* `Json.dataOfText?` — the value of a text as plain data: readable and settled.
-/

namespace PersistenceQuery
namespace Json

/-- How many arrays and objects may lie inside one another. -/
def maxDepth : Nat := 127

/-- An array or object that is not closed yet, with what it holds so far, last first. -/
inductive Frame
  | array (items : List Json)
  /-- `key` is set between a key and its value, and `sound` as long as all keys are readable. -/
  | object (fields : List (String × Json)) (key : Option String) (sound : Bool)

/-- The value of a frame when it is closed. -/
def Frame.close : Frame → Json
  | array items => .array items.reverse
  | object fields _ sound => if sound then .object fields.reverse else .unreadable

/-- What a frame holds after a value more. -/
def Frame.add (j : Json) : Frame → Frame
  | array items => array (j :: items)
  | object fields key sound => object ((key.getD "", j) :: fields) none sound

/-- What the next token has to be. -/
inductive Expected
  | value
  /-- The first item of an array, or its end. -/
  | item
  /-- The first key of an object, or its end. -/
  | field
  /-- A key behind a comma. -/
  | key
  | colon
  /-- A comma or the end of the innermost frame. -/
  | separator
  /-- Nothing: the value is complete. -/
  | done (j : Json)

/-- The state of reading: the frames from the innermost out, and what comes next. -/
structure Reader where
  stack : List Frame
  expected : Expected

namespace Reader

/-- Nothing is read yet. -/
def start : Reader := ⟨[], .value⟩

/-- A value is complete. -/
def complete (stack : List Frame) (j : Json) : Reader :=
  match stack with
  | [] => ⟨[], .done j⟩
  | frame :: outer => ⟨frame.add j :: outer, .separator⟩

/-- The innermost frame is closed; inside too many others its value is unreadable. -/
def close : List Frame → Option Reader
  | [] => none
  | frame :: outer =>
    some (complete outer (if outer.length < maxDepth then frame.close else .unreadable))

/-- The first token of a value. -/
def beginValue (stack : List Frame) : Token → Option Reader
  | .scalar j => some (complete stack j)
  | .text s => some (complete stack ((s.map Json.string).getD .unreadable))
  | .openArray => some ⟨.array [] :: stack, .item⟩
  | .openObject => some ⟨.object [] none true :: stack, .field⟩
  | _ => none

/-- A key of the innermost object. -/
def takeKey : List Frame → Option String → Option Reader
  | .object fields _ sound :: outer, key =>
    some ⟨.object fields (key.getD "") (sound && key.isSome) :: outer, .colon⟩
  | _, _ => none

/-- One token more. -/
def step (r : Reader) (t : Token) : Option Reader :=
  match r.expected, t, r.stack with
  | .value, t, stack => beginValue stack t
  | .item, .closeArray, stack => close stack
  | .item, t, stack => beginValue stack t
  | .field, .closeObject, stack => close stack
  | .field, .text key, stack | .key, .text key, stack => takeKey stack key
  | .colon, .colon, stack => some ⟨stack, .value⟩
  | .separator, .comma, .array items :: outer => some ⟨.array items :: outer, .value⟩
  | .separator, .comma, .object fields key sound :: outer =>
    some ⟨.object fields key sound :: outer, .key⟩
  | .separator, .closeArray, .array items :: outer => close (.array items :: outer)
  | .separator, .closeObject, .object fields key sound :: outer =>
    close (.object fields key sound :: outer)
  | _, _, _ => none

end Reader

/-- The value of a JSON text. -/
def ofText? (s : String) : Option Json := do
  let tokens ← Token.ofChars? s.toList
  let r ← tokens.foldlM Reader.step Reader.start
  match r.expected with
  | .done j => some j
  | _ => none

/-- The value of a JSON text as plain data: all of it readable, and every object settled. -/
def dataOfText? (s : String) : Option Json :=
  match ofText? s with
  | some j => if j.isReadable then some j.settled else none
  | none => none

end Json
end PersistenceQuery
