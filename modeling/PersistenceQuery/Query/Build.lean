import PersistenceQuery.Query.Expr

/-!
# Building queries

Short ways to the parts of a query that are needed most.  Everything else is built by the
constructors themselves.

## Main definitions

* `Expr.ofPath`, `Entity.pathTo` — paths as expressions, from text and from an entity on.
* `Expr.equal`, `Expr.conjunction`, `Expr.count`, … — expressions by what they say.
* `SortKey.ascending`, `SortKey.descending` — the keys of a sort.
* `Select.ofEntity`, `Select.filtered` — a query on one entity, and its condition.
-/

namespace PersistenceQuery

namespace Expr

/-- A path, from its text. -/
def ofPath (text : String) : Expr := .path (.ofText text)

/-- A named parameter that brings no value. -/
def named (name : String) : Expr := .parameter name none

/-- A named parameter that brings its own value. -/
def bound (name : String) (value : Value) : Expr := .parameter name (some value)

def equal (left right : Expr) : Expr := .comparison .eq left right

def greaterThan (left right : Expr) : Expr := .comparison .gt left right

def lessThan (left right : Expr) : Expr := .comparison .lt left right

/-- All operands hold. -/
def conjunction (operands : List Expr) : Expr := .logical .and operands

/-- One of the operands holds. -/
def disjunction (operands : List Expr) : Expr := .logical .or operands

def lower (value : Expr) : Expr := .unary .lower value

def upper (value : Expr) : Expr := .unary .upper value

/-- How many rows have a value, counting equal ones again. -/
def count (value : Expr) : Expr := .aggregate .count false value

end Expr

/-- An attribute of an entity, reached by the label of the entity. -/
def Entity.pathTo (e : Entity) (name : String) : Expr := .ofPath (e.label ++ "." ++ name)

namespace SortKey

/-- The least values first. -/
def ascending (key : Expr) : SortKey := ⟨key, .asc, none⟩

/-- The greatest values first. -/
def descending (key : Expr) : SortKey := ⟨key, .desc, none⟩

end SortKey

namespace Select

/-- Items selected from one entity. -/
def ofEntity (resultType : String) (items : List Expr) (entity : Entity) : Select where
  resultType := resultType
  distinct := false
  items := items
  sources := [⟨entity, []⟩]
  filter := none
  groupBy := []
  having := none
  orderBy := []

/-- The query with a condition, in place of the one it had. -/
def filtered (q : Select) (condition : Expr) : Select := { q with filter := some condition }

end Select
end PersistenceQuery
