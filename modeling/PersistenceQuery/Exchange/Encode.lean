import PersistenceQuery.Exchange.Value
import PersistenceQuery.Query.Expr

/-!
# Queries as JSON

The JSON form of the query model.  A choice between constructors is an object with one key, the
tag of the constructor; what has fields is an object with all of them in order.

## Main definitions

* `Tag` — the tags of expressions.
* `Expr.toJson`, `Select.toJson`, `Query.toJson` — the JSON form.
-/

namespace PersistenceQuery

/-- What the JSON form tells the expressions apart by. -/
inductive Tag
  | literal
  | parameter
  | path
  | entity
  | aliased
  | arithmetic
  | negate
  | choice
  | subquery
  | comparison
  | logical
  | not
  | like
  | between
  | inList
  | inSubquery
  | isNull
  | isEmpty
  | memberOf
  | exists
  | unary (f : UnaryFunction)
  | current (m : Moment)
  | variadic (f : ListFunction)
  | substring
  | nullIf
  | aggregate
  | function
  | custom
  deriving DecidableEq, Repr

namespace Tag

/-- All tags. -/
def all : List Tag :=
  [literal, parameter, path, entity, aliased, arithmetic, negate, choice, subquery, comparison,
   logical, not, like, between, inList, inSubquery, isNull, isEmpty, memberOf, .exists]
  ++ UnaryFunction.all.map unary ++ Moment.all.map current ++ ListFunction.all.map variadic
  ++ [substring, nullIf, aggregate, function, custom]

/-- The key of a tag. -/
def name : Tag → String
  | literal => "literal"
  | parameter => "param"
  | path => "path"
  | entity => "entity"
  | aliased => "alias"
  | arithmetic => "arithmetic"
  | negate => "negate"
  | choice => "case"
  | subquery => "subquery"
  | comparison => "comparison"
  | logical => "logical"
  | not => "not"
  | like => "like"
  | between => "between"
  | inList => "in"
  | inSubquery => "in_subquery"
  | isNull => "is_null"
  | isEmpty => "is_empty"
  | memberOf => "member_of"
  | .exists => "exists"
  | unary f => f.name
  | current m => m.name
  | variadic f => f.name
  | substring => "substring"
  | nullIf => "null_if"
  | aggregate => "aggregate"
  | function => "function"
  | custom => "custom"

/-- The tag with a key. -/
def ofName? (s : String) : Option Tag := all.find? (·.name == s)

theorem ofName?_name (t : Tag) : ofName? t.name = some t := by
  cases t with
  | unary f => cases f <;> decide
  | current m => cases m <;> decide
  | variadic f => cases f <;> decide
  | _ => decide

/-- What stands under a tag. -/
def object (t : Tag) (body : Json) : Json := .object [(t.name, body)]

end Tag

/-! ### Leaves -/

/-- The JSON form of what may be absent. -/
def Json.optional {α : Type} (encode : α → Json) : Option α → Json
  | none => .null
  | some a => encode a

def Path.toJson (p : Path) : Json := .object [("segments", .array (p.segments.map .string))]

def Entity.toJson (e : Entity) : Json :=
  .object [("name", .string e.name), ("alias", .string e.label)]

def JoinTarget.toJson : JoinTarget → Json
  | .entity e => .object [("entity", e.toJson)]
  | .association path label =>
    .object [("association", .object [("path", path.toJson), ("alias", .string label)])]

/-! ### Expressions and queries -/

mutual

def Expr.toJson : Expr → Json
  | .literal v => Tag.literal.object v.tagged
  | .parameter name embedded =>
    Tag.parameter.object
      (.object [("name", .string name), ("value", .optional Value.tagged embedded)])
  | .path p => Tag.path.object p.toJson
  | .entity e => Tag.entity.object e.toJson
  | .aliased v label =>
    Tag.aliased.object (.object [("value", v.toJson), ("alias", .string label)])
  | .arithmetic op l r =>
    Tag.arithmetic.object
      (.object [("op", .string op.name), ("left", l.toJson), ("right", r.toJson)])
  | .negate v => Tag.negate.object v.toJson
  | .choice subject arms otherwise =>
    Tag.choice.object (.object [("operand", optionToJson subject),
      ("whens", .array (armsToJson arms)), ("otherwise", optionToJson otherwise)])
  | .subquery q => Tag.subquery.object q.toJson
  | .comparison op l r =>
    Tag.comparison.object
      (.object [("op", .string op.name), ("left", l.toJson), ("right", r.toJson)])
  | .logical op es =>
    Tag.logical.object (.object [("op", .string op.name), ("operands", .array (listToJson es))])
  | .not e => Tag.not.object e.toJson
  | .like v p escape negated =>
    Tag.like.object (.object [("value", v.toJson), ("pattern", p.toJson),
      ("escape", .optional (fun c => .string (String.singleton c)) escape),
      ("negated", .bool negated)])
  | .between v low high negated =>
    Tag.between.object (.object [("value", v.toJson), ("low", low.toJson),
      ("high", high.toJson), ("negated", .bool negated)])
  | .inList v es negated =>
    Tag.inList.object (.object [("value", v.toJson), ("list", .array (listToJson es)),
      ("negated", .bool negated)])
  | .inSubquery v q negated =>
    Tag.inSubquery.object (.object [("value", v.toJson), ("subquery", q.toJson),
      ("negated", .bool negated)])
  | .isNull v negated =>
    Tag.isNull.object (.object [("value", v.toJson), ("negated", .bool negated)])
  | .isEmpty p negated =>
    Tag.isEmpty.object (.object [("path", p.toJson), ("negated", .bool negated)])
  | .memberOf v p negated =>
    Tag.memberOf.object (.object [("value", v.toJson), ("collection", p.toJson),
      ("negated", .bool negated)])
  | .exists q negated =>
    Tag.exists.object (.object [("subquery", q.toJson), ("negated", .bool negated)])
  | .unary f v => (Tag.unary f).object v.toJson
  | .current m => .string m.name
  | .variadic f es => (Tag.variadic f).object (.array (listToJson es))
  | .substring v start length =>
    Tag.substring.object (.object [("value", v.toJson), ("start", start.toJson),
      ("length", optionToJson length)])
  | .nullIf l r => Tag.nullIf.object (.object [("left", l.toJson), ("right", r.toJson)])
  | .aggregate f distinct v =>
    Tag.aggregate.object (.object [("func", .string f.name), ("distinct", .bool distinct),
      ("value", v.toJson)])
  | .function name es =>
    Tag.function.object (.object [("name", .string name), ("args", .array (listToJson es))])
  | .custom kind es =>
    Tag.custom.object (.object [("kind", .string kind), ("args", .array (listToJson es))])

def optionToJson : Option Expr → Json
  | none => .null
  | some e => e.toJson

def listToJson : List Expr → List Json
  | [] => []
  | e :: es => e.toJson :: listToJson es

def armsToJson : List Arm → List Json
  | [] => []
  | ⟨condition, result⟩ :: arms =>
    .object [("condition", condition.toJson), ("result", result.toJson)] :: armsToJson arms

def Select.toJson : Select → Json
  | ⟨resultType, distinct, items, sources, filter, groupBy, having, orderBy⟩ =>
    .object [("result_type", .string resultType), ("distinct", .bool distinct),
      ("select", .array (listToJson items)), ("from", .array (sourcesToJson sources)),
      ("where", optionToJson filter), ("group_by", .array (listToJson groupBy)),
      ("having", optionToJson having), ("order_by", .array (keysToJson orderBy))]

def sourcesToJson : List Source → List Json
  | [] => []
  | ⟨entity, joins⟩ :: sources =>
    .object [("entity", entity.toJson), ("joins", .array (joinsToJson joins))]
      :: sourcesToJson sources

def joinsToJson : List Join → List Json
  | [] => []
  | join :: joins => join.toJson :: joinsToJson joins

def Join.toJson : Join → Json
  | ⟨kind, fetch, target, condition⟩ =>
    .object [("kind", .string kind.name), ("fetch", .bool fetch), ("target", target.toJson),
      ("on", optionToJson condition)]

def keysToJson : List SortKey → List Json
  | [] => []
  | key :: keys => key.toJson :: keysToJson keys

def SortKey.toJson : SortKey → Json
  | ⟨key, order, nulls⟩ =>
    .object [("expr", key.toJson), ("order", .string order.name),
      ("nulls", .optional (fun n => .string n.name) nulls)]

end

def Assignment.toJson (a : Assignment) : Json :=
  .object [("path", a.path.toJson), ("value", a.value.toJson)]

def Update.toJson (q : Update) : Json :=
  .object [("entity", q.entity.toJson), ("set", .array (q.assignments.map Assignment.toJson)),
    ("where", optionToJson q.filter)]

def Delete.toJson (q : Delete) : Json :=
  .object [("entity", q.entity.toJson), ("where", optionToJson q.filter)]

def Query.toJson : Query → Json
  | .select q => .object [("select", q.toJson)]
  | .update q => .object [("update", q.toJson)]
  | .delete q => .object [("delete", q.toJson)]

end PersistenceQuery
