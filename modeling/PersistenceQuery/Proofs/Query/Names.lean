import PersistenceQuery.Query.Nodes

/-!
# The names in a query

A query brings names of its own: those of entities and attributes, and the labels it gives.  Every
expression is listed with the names that it brings itself; those of the expressions inside it are
theirs.

## Main definitions

* `Expr.ownNames`, `Select.ownNames` — the names that stand in an expression itself, and in the
  `FROM` clause of a selecting query.
* `Query.names` — all names of a query.
* `Query.paths` — all paths of a query, found in the same way.
-/

namespace PersistenceQuery

/-- The names of an enumeration constant: the parts of the dotted type name, and the constant. -/
def Value.names : Value → List String
  | .enum typeName constant => (Path.ofText typeName).segments ++ [constant]
  | _ => []

/-- The name and the label of an entity. -/
def Entity.names (e : Entity) : List String := [e.name, e.label]

/-- The names of what is joined. -/
def JoinTarget.names : JoinTarget → List String
  | .entity e => e.names
  | .association path label => path.segments ++ [label]

/-- The names of a source: those of its entity and of what is joined to it. -/
def Source.ownNames (s : Source) : List String :=
  s.entity.names ++ s.joins.flatMap fun j => j.target.names

/-- The names of a `FROM` clause. -/
def Select.ownNames (q : Select) : List String := q.sources.flatMap Source.ownNames

/-- The names that an expression brings itself. -/
def Expr.ownNames : Expr → List String
  | .literal v => v.names
  | .path p | .isEmpty p _ | .memberOf _ p _ => p.segments
  | .entity e => e.names
  | .aliased _ label => [label]
  | .subquery q | .inSubquery _ q _ | .exists q _ => q.ownNames
  | _ => []

/-- The names that stand in a query itself. -/
def Query.ownNames : Query → List String
  | .select q => q.ownNames
  | .update q => q.entity.names ++ q.assignments.flatMap fun a => a.path.segments
  | .delete q => q.entity.names

/-- The names of a query, those of its expressions and subqueries included. -/
def Query.names (q : Query) : List String := q.ownNames ++ q.nodes.flatMap Expr.ownNames

/-! ### Paths -/

/-- The path to what is joined; an entity has none. -/
def JoinTarget.paths : JoinTarget → List Path
  | .entity _ => []
  | .association path _ => [path]

/-- The paths to what is joined to a source. -/
def Source.ownPaths (s : Source) : List Path := s.joins.flatMap fun j => j.target.paths

/-- The paths of a `FROM` clause. -/
def Select.ownPaths (q : Select) : List Path := q.sources.flatMap Source.ownPaths

/-- The paths that an expression brings itself. -/
def Expr.ownPaths : Expr → List Path
  | .path p | .isEmpty p _ | .memberOf _ p _ => [p]
  | .subquery q | .inSubquery _ q _ | .exists q _ => q.ownPaths
  | _ => []

/-- The paths that stand in a query itself. -/
def Query.ownPaths : Query → List Path
  | .select q => q.ownPaths
  | .update q => q.assignments.map Assignment.path
  | .delete _ => []

/-- The paths of a query, those of its expressions and subqueries included. -/
def Query.paths (q : Query) : List Path := q.ownPaths ++ q.nodes.flatMap Expr.ownPaths

end PersistenceQuery
