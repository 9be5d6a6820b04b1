import PersistenceQuery.Exchange.Encode

/-!
# Queries from JSON

Reads the JSON form of the query model.  What has fields may be an object, where fields that may
be absent need not be written, or an array of the fields in order, which may end early only where
the rest has defaults.  Keys that are not known are skipped; a known one may stand only once.

## Main definitions

* `Json.Record` — the fields of an object or array, by their names.
* `Expr.ofJson?`, `Select.ofJson?`, `Query.ofJson?` — what a JSON value stands for.
-/

namespace PersistenceQuery
namespace Json

/-! ### Records -/

/-- A value inside another. -/
abbrev Inside (j : Json) := { v : Json // sizeOf v < sizeOf j }

/-- The value at a key among fields. -/
def fieldInside (key : String) :
    (fields : List (String × Json)) → Option { v : Json // sizeOf v < sizeOf fields }
  | [] => none
  | (k, v) :: rest =>
    if k = key then some ⟨v, by simp only [List.cons.sizeOf_spec, Prod.mk.sizeOf_spec]; omega⟩
    else (fieldInside key rest).map fun ⟨w, h⟩ =>
      ⟨w, by simp only [List.cons.sizeOf_spec]; omega⟩

/-- The item at a place of an array. -/
def itemInside : Nat → (items : List Json) → Option { v : Json // sizeOf v < sizeOf items }
  | _, [] => none
  | 0, v :: _ => some ⟨v, by simp only [List.cons.sizeOf_spec]; omega⟩
  | n + 1, _ :: rest => (itemInside n rest).map fun ⟨w, h⟩ =>
      ⟨w, by simp only [List.cons.sizeOf_spec]; omega⟩

/-- The items of an array, each known to lie inside. -/
def itemsInside : (items : List Json) → List { v : Json // sizeOf v < sizeOf items }
  | [] => []
  | v :: rest =>
    ⟨v, by simp only [List.cons.sizeOf_spec]; omega⟩
      :: (itemsInside rest).map fun ⟨w, h⟩ => ⟨w, by simp only [List.cons.sizeOf_spec]; omega⟩

/-- The fields of a value by their names. -/
structure Record (j : Json) where
  /-- Fields are written with their names, so one that may be absent can be left out. -/
  named : Bool
  find? : String → Option (Inside j)

/-- The fields of an object in which each name stands at most once, or of an array that is not
longer than the list of names. -/
def record? (names : List String) : (j : Json) → Option (Record j)
  | .object fields =>
    if names.all (hasOnce fields) then
      some ⟨true, fun key => (fieldInside key fields).map fun ⟨v, h⟩ =>
        ⟨v, by simp only [Json.object.sizeOf_spec]; omega⟩⟩
    else none
  | .array items =>
    if items.length ≤ names.length then
      some ⟨false, fun key => (itemInside (names.idxOf key) items).map fun ⟨v, h⟩ =>
        ⟨v, by simp only [Json.array.sizeOf_spec]; omega⟩⟩
    else none
  | _ => none

/-- The items of an array. -/
def items? : (j : Json) → Option (List (Inside j))
  | .array items => some ((itemsInside items).map fun ⟨v, h⟩ =>
      ⟨v, by simp only [Json.array.sizeOf_spec]; omega⟩)
  | _ => none

namespace Record

variable {j : Json} {α : Type}

/-- A field that has to be there. -/
def required (r : Record j) (key : String) (read : Inside j → Option α) : Option α :=
  (r.find? key).bind read

/-- A field that may be null, and left out where fields have names. -/
def optional (r : Record j) (key : String) (read : Inside j → Option α) : Option (Option α) :=
  match r.find? key with
  | none => if r.named then some none else none
  | some ⟨.null, _⟩ => some none
  | some v => (read v).map some

/-- A field with a value for the case that it is left out. -/
def defaulted (r : Record j) (key : String) (absent : α) (read : Inside j → Option α) :
    Option α :=
  match r.find? key with
  | none => some absent
  | some v => read v

end Record

/-- Reads a value that lies inside another without further values in it. -/
def leaf {j : Json} {α : Type} (read : Json → Option α) (v : Inside j) : Option α := read v.1

end Json

open Json

/-! ### Leaves -/

def Path.ofJson? (j : Json) : Option Path := do
  let r ← j.record? ["segments"]
  let segments ← r.required "segments" (leaf (list? text?))
  some ⟨segments⟩

def Entity.ofJson? (j : Json) : Option Entity := do
  let r ← j.record? ["name", "alias"]
  let name ← r.required "name" (leaf text?)
  let label ← r.required "alias" (leaf text?)
  some ⟨name, label⟩

def JoinTarget.ofJson? : Json → Option JoinTarget
  | .object [("entity", body)] => (Entity.ofJson? body).map .entity
  | .object [("association", body)] => do
    let r ← body.record? ["path", "alias"]
    let path ← r.required "path" (leaf Path.ofJson?)
    let label ← r.required "alias" (leaf text?)
    some (.association path label)
  | _ => none

/-- A choice that is known by its name. -/
def named? {α : Type} (ofName? : String → Option α) (j : Json) : Option α :=
  j.choice?.bind ofName?

/-! ### Expressions and queries -/

mutual

/-- The expression of a JSON value: an object with a tag, or the name of a tag that needs no
more. -/
def Expr.ofJson? (j : Json) : Option Expr :=
  match j with
  | .object [(name, body)] =>
    match Tag.ofName? name with
    | some tag => Expr.ofTagged? tag body
    | none => none
  | .string name => (Moment.ofName? name).map .current
  | _ => none
termination_by 2 * sizeOf j

/-- The expression of a tag and what stands under it. -/
def Expr.ofTagged? (tag : Tag) (body : Json) : Option Expr :=
  match tag with
  | .literal => (Value.ofTagged? body).map .literal
  | .parameter => do
    let r ← body.record? ["name", "value"]
    let name ← r.required "name" (leaf text?)
    let embedded ← r.optional "value" (leaf Value.ofTagged?)
    some (.parameter name embedded)
  | .path => (Path.ofJson? body).map .path
  | .entity => (Entity.ofJson? body).map .entity
  | .aliased => do
    let r ← body.record? ["value", "alias"]
    let value ← r.required "value" fun ⟨v, _⟩ => Expr.ofJson? v
    let label ← r.required "alias" (leaf text?)
    some (.aliased value label)
  | .arithmetic => do
    let r ← body.record? ["op", "left", "right"]
    let op ← r.required "op" (leaf (named? ArithmeticOp.ofName?))
    let left ← r.required "left" fun ⟨v, _⟩ => Expr.ofJson? v
    let right ← r.required "right" fun ⟨v, _⟩ => Expr.ofJson? v
    some (.arithmetic op left right)
  | .negate => (Expr.ofJson? body).map .negate
  | .choice => do
    let r ← body.record? ["operand", "whens", "otherwise"]
    let operand ← r.optional "operand" fun ⟨v, _⟩ => Expr.ofJson? v
    let arms ← r.required "whens" fun ⟨v, _⟩ => armsOfJson? v
    let otherwise ← r.optional "otherwise" fun ⟨v, _⟩ => Expr.ofJson? v
    some (.choice operand arms otherwise)
  | .subquery => (Select.ofJson? body).map .subquery
  | .comparison => do
    let r ← body.record? ["op", "left", "right"]
    let op ← r.required "op" (leaf (named? ComparisonOp.ofName?))
    let left ← r.required "left" fun ⟨v, _⟩ => Expr.ofJson? v
    let right ← r.required "right" fun ⟨v, _⟩ => Expr.ofJson? v
    some (.comparison op left right)
  | .logical => do
    let r ← body.record? ["op", "operands"]
    let op ← r.required "op" (leaf (named? LogicalOp.ofName?))
    let operands ← r.required "operands" fun ⟨v, _⟩ => listOfJson? v
    some (.logical op operands)
  | .not => (Expr.ofJson? body).map .not
  | .like => do
    let r ← body.record? ["value", "pattern", "escape", "negated"]
    let value ← r.required "value" fun ⟨v, _⟩ => Expr.ofJson? v
    let pattern ← r.required "pattern" fun ⟨v, _⟩ => Expr.ofJson? v
    let escape ← r.optional "escape" (leaf character?)
    let negated ← r.required "negated" (leaf flag?)
    some (.like value pattern escape negated)
  | .between => do
    let r ← body.record? ["value", "low", "high", "negated"]
    let value ← r.required "value" fun ⟨v, _⟩ => Expr.ofJson? v
    let low ← r.required "low" fun ⟨v, _⟩ => Expr.ofJson? v
    let high ← r.required "high" fun ⟨v, _⟩ => Expr.ofJson? v
    let negated ← r.required "negated" (leaf flag?)
    some (.between value low high negated)
  | .inList => do
    let r ← body.record? ["value", "list", "negated"]
    let value ← r.required "value" fun ⟨v, _⟩ => Expr.ofJson? v
    let members ← r.required "list" fun ⟨v, _⟩ => listOfJson? v
    let negated ← r.required "negated" (leaf flag?)
    some (.inList value members negated)
  | .inSubquery => do
    let r ← body.record? ["value", "subquery", "negated"]
    let value ← r.required "value" fun ⟨v, _⟩ => Expr.ofJson? v
    let query ← r.required "subquery" fun ⟨v, _⟩ => Select.ofJson? v
    let negated ← r.required "negated" (leaf flag?)
    some (.inSubquery value query negated)
  | .isNull => do
    let r ← body.record? ["value", "negated"]
    let value ← r.required "value" fun ⟨v, _⟩ => Expr.ofJson? v
    let negated ← r.required "negated" (leaf flag?)
    some (.isNull value negated)
  | .isEmpty => do
    let r ← body.record? ["path", "negated"]
    let path ← r.required "path" (leaf Path.ofJson?)
    let negated ← r.required "negated" (leaf flag?)
    some (.isEmpty path negated)
  | .memberOf => do
    let r ← body.record? ["value", "collection", "negated"]
    let value ← r.required "value" fun ⟨v, _⟩ => Expr.ofJson? v
    let collection ← r.required "collection" (leaf Path.ofJson?)
    let negated ← r.required "negated" (leaf flag?)
    some (.memberOf value collection negated)
  | .exists => do
    let r ← body.record? ["subquery", "negated"]
    let query ← r.required "subquery" fun ⟨v, _⟩ => Select.ofJson? v
    let negated ← r.required "negated" (leaf flag?)
    some (.exists query negated)
  | .unary f => (Expr.ofJson? body).map (.unary f)
  | .current m =>
    match body with
    | .null => some (.current m)
    | _ => none
  | .variadic f => (listOfJson? body).map (.variadic f)
  | .substring => do
    let r ← body.record? ["value", "start", "length"]
    let value ← r.required "value" fun ⟨v, _⟩ => Expr.ofJson? v
    let start ← r.required "start" fun ⟨v, _⟩ => Expr.ofJson? v
    let length ← r.optional "length" fun ⟨v, _⟩ => Expr.ofJson? v
    some (.substring value start length)
  | .nullIf => do
    let r ← body.record? ["left", "right"]
    let left ← r.required "left" fun ⟨v, _⟩ => Expr.ofJson? v
    let right ← r.required "right" fun ⟨v, _⟩ => Expr.ofJson? v
    some (.nullIf left right)
  | .aggregate => do
    let r ← body.record? ["func", "distinct", "value"]
    let f ← r.required "func" (leaf (named? AggregateFunction.ofName?))
    let distinct ← r.required "distinct" (leaf flag?)
    let value ← r.required "value" fun ⟨v, _⟩ => Expr.ofJson? v
    some (.aggregate f distinct value)
  | .function => do
    let r ← body.record? ["name", "args"]
    let name ← r.required "name" (leaf text?)
    let arguments ← r.required "args" fun ⟨v, _⟩ => listOfJson? v
    some (.function name arguments)
  | .custom => do
    let r ← body.record? ["kind", "args"]
    let kind ← r.required "kind" (leaf text?)
    let arguments ← r.required "args" fun ⟨v, _⟩ => listOfJson? v
    some (.custom kind arguments)
termination_by 2 * sizeOf body + 1

/-- A list of expressions. -/
def listOfJson? (j : Json) : Option (List Expr) := do
  let items ← j.items?
  items.mapM fun ⟨v, _⟩ => Expr.ofJson? v
termination_by 2 * sizeOf j

/-- The arms of a choice. -/
def armsOfJson? (j : Json) : Option (List Arm) := do
  let items ← j.items?
  items.mapM fun ⟨v, _⟩ => Arm.ofJson? v
termination_by 2 * sizeOf j

def Arm.ofJson? (j : Json) : Option Arm := do
  let r ← j.record? ["condition", "result"]
  let condition ← r.required "condition" fun ⟨v, _⟩ => Expr.ofJson? v
  let result ← r.required "result" fun ⟨v, _⟩ => Expr.ofJson? v
  some ⟨condition, result⟩
termination_by 2 * sizeOf j

def Select.ofJson? (j : Json) : Option Select := do
  let r ← j.record?
    ["result_type", "distinct", "select", "from", "where", "group_by", "having", "order_by"]
  let resultType ← r.required "result_type" (leaf text?)
  let distinct ← r.defaulted "distinct" false (leaf flag?)
  let items ← r.required "select" fun ⟨v, _⟩ => listOfJson? v
  let sources ← r.required "from" fun ⟨v, _⟩ => sourcesOfJson? v
  let filter ← r.optional "where" fun ⟨v, _⟩ => Expr.ofJson? v
  let groupBy ← r.defaulted "group_by" [] fun ⟨v, _⟩ => listOfJson? v
  let having ← r.optional "having" fun ⟨v, _⟩ => Expr.ofJson? v
  let orderBy ← r.defaulted "order_by" [] fun ⟨v, _⟩ => keysOfJson? v
  some ⟨resultType, distinct, items, sources, filter, groupBy, having, orderBy⟩
termination_by 2 * sizeOf j

/-- The items of a `FROM` clause. -/
def sourcesOfJson? (j : Json) : Option (List Source) := do
  let items ← j.items?
  items.mapM fun ⟨v, _⟩ => Source.ofJson? v
termination_by 2 * sizeOf j

def Source.ofJson? (j : Json) : Option Source := do
  let r ← j.record? ["entity", "joins"]
  let entity ← r.required "entity" (leaf Entity.ofJson?)
  let joins ← r.defaulted "joins" [] fun ⟨v, _⟩ => joinsOfJson? v
  some ⟨entity, joins⟩
termination_by 2 * sizeOf j

/-- The joins of an item. -/
def joinsOfJson? (j : Json) : Option (List Join) := do
  let items ← j.items?
  items.mapM fun ⟨v, _⟩ => Join.ofJson? v
termination_by 2 * sizeOf j

def Join.ofJson? (j : Json) : Option Join := do
  let r ← j.record? ["kind", "fetch", "target", "on"]
  let kind ← r.required "kind" (leaf (named? JoinKind.ofName?))
  let fetch ← r.defaulted "fetch" false (leaf flag?)
  let target ← r.required "target" (leaf JoinTarget.ofJson?)
  let condition ← r.optional "on" fun ⟨v, _⟩ => Expr.ofJson? v
  some ⟨kind, fetch, target, condition⟩
termination_by 2 * sizeOf j

/-- The keys of an `ORDER BY` clause. -/
def keysOfJson? (j : Json) : Option (List SortKey) := do
  let items ← j.items?
  items.mapM fun ⟨v, _⟩ => SortKey.ofJson? v
termination_by 2 * sizeOf j

def SortKey.ofJson? (j : Json) : Option SortKey := do
  let r ← j.record? ["expr", "order", "nulls"]
  let key ← r.required "expr" fun ⟨v, _⟩ => Expr.ofJson? v
  let order ← r.defaulted "order" .asc (leaf (named? SortOrder.ofName?))
  let nulls ← r.optional "nulls" (leaf (named? NullOrder.ofName?))
  some ⟨key, order, nulls⟩
termination_by 2 * sizeOf j

end

def Assignment.ofJson? (j : Json) : Option Assignment := do
  let r ← j.record? ["path", "value"]
  let path ← r.required "path" (leaf Path.ofJson?)
  let value ← r.required "value" (leaf Expr.ofJson?)
  some ⟨path, value⟩

def Update.ofJson? (j : Json) : Option Update := do
  let r ← j.record? ["entity", "set", "where"]
  let entity ← r.required "entity" (leaf Entity.ofJson?)
  let assignments ← r.required "set" (leaf (list? Assignment.ofJson?))
  let filter ← r.optional "where" (leaf Expr.ofJson?)
  some ⟨entity, assignments, filter⟩

def Delete.ofJson? (j : Json) : Option Delete := do
  let r ← j.record? ["entity", "where"]
  let entity ← r.required "entity" (leaf Entity.ofJson?)
  let filter ← r.optional "where" (leaf Expr.ofJson?)
  some ⟨entity, filter⟩

def Query.ofJson? : Json → Option Query
  | .object [("select", body)] => (Select.ofJson? body).map .select
  | .object [("update", body)] => (Update.ofJson? body).map .update
  | .object [("delete", body)] => (Delete.ofJson? body).map .delete
  | _ => none

end PersistenceQuery
