import PersistenceQuery.Fault
import PersistenceQuery.Query.Nodes

/-!
# The shape of a query

The rules that a query has to keep before it is written.  They are checked from the root on: first
those of the query itself, then those of its expressions in order, so that the first violation
decides.

## Main definitions

* `Select.checkShape`, `Expr.checkShape` — the rules of a selecting query, and of one expression.
* `Query.checkShape` — all rules of a query and of the subqueries in it.
-/

namespace PersistenceQuery

/-- A letter, a digit or an underscore of ASCII, as names of parameters have them. -/
def isNameChar (c : Char) : Bool := c.isAlphanum || c == '_'

/-- A letter or an underscore, followed by letters, digits and underscores. -/
def isParameterName (name : String) : Bool :=
  match name.toList with
  | [] => false
  | c :: cs => (c.isAlpha || c == '_') && cs.all isNameChar

/-- An entity has a name and a label. -/
def Entity.checkShape (e : Entity) : Except ShapeFault Unit :=
  if e.name.isEmpty then .error .unnamedEntity
  else if e.label.isEmpty then .error (.unlabelledEntity e.name)
  else .ok ()

/-- An entity is joined by a condition and not fetched; an association is joined by a path without
gaps and has a label. -/
def Join.checkShape (j : Join) : Except ShapeFault Unit :=
  match j.target with
  | .entity e => do
    e.checkShape
    if j.condition.isNone then .error (.unconditionalJoin e.name)
    else if j.fetch then .error (.fetchedEntity e.name)
    else .ok ()
  | .association path label =>
    if path.segments.any String.isEmpty then .error (.malformedJoinPath path)
    else if label.isEmpty then .error (.unlabelledJoin path)
    else .ok ()

/-- An item of a `FROM` clause: its entity and then its joins. -/
def Source.checkShape (s : Source) : Except ShapeFault Unit := do
  s.entity.checkShape
  s.joins.forM Join.checkShape

/-- A selecting query selects something from somewhere. -/
def Select.checkShape (q : Select) : Except ShapeFault Unit :=
  if q.items.isEmpty then .error .emptySelection
  else if q.sources.isEmpty then .error .noSource
  else q.sources.forM Source.checkShape

/-- The rules of one expression, not of those inside it. -/
def Expr.checkShape : Expr → Except ShapeFault Unit
  | .subquery q | .exists q _ | .inSubquery _ q _ => q.checkShape
  | .parameter name _ =>
    if isParameterName name then .ok () else .error (.invalidParameterName name)
  | .inList _ members _ => if members.isEmpty then .error .emptyMembers else .ok ()
  | _ => .ok ()

/-- The rules of the query itself. -/
def Query.checkRoot : Query → Except ShapeFault Unit
  | .select q => q.checkShape
  | .update q => do
    q.entity.checkShape
    if q.assignments.isEmpty then .error .noAssignments else .ok ()
  | .delete q => q.entity.checkShape

/-- All rules: those of the query, and those of its expressions in order. -/
def Query.checkShape (q : Query) : Except ShapeFault Unit := do
  q.checkRoot
  q.nodes.forM Expr.checkShape

end PersistenceQuery
