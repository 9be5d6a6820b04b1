import PersistenceQuery.Query.Part

/-!
# The expressions of a query

All expressions of a query, those of its subqueries included: an expression before the expressions
inside it, and otherwise in the order in which they are written.

## Main definitions

* `Query.nodes`, `Expr.nodes` — the expressions of a query, and those of an expression with
  itself in front.
* `Query.literals` — the values of the literals, in that order.
* `Query.parameters` — the named parameters with the values they bring, in that order.
-/

namespace PersistenceQuery

mutual

/-- The expression and all expressions inside it. -/
def Expr.nodes : Expr → List Expr
  | .literal v => [.literal v]
  | .parameter name v => [.parameter name v]
  | .path p => [.path p]
  | .entity e => [.entity e]
  | .aliased v label => .aliased v label :: v.nodes
  | .arithmetic op l r => .arithmetic op l r :: (l.nodes ++ r.nodes)
  | .negate v => .negate v :: v.nodes
  | .choice operand arms otherwise =>
    .choice operand arms otherwise
      :: (nodesOfOption operand ++ nodesOfArms arms ++ nodesOfOption otherwise)
  | .subquery q => .subquery q :: q.nodes
  | .comparison op l r => .comparison op l r :: (l.nodes ++ r.nodes)
  | .logical op es => .logical op es :: nodesOfList es
  | .not e => .not e :: e.nodes
  | .like v p escape negated => .like v p escape negated :: (v.nodes ++ p.nodes)
  | .between v low high negated =>
    .between v low high negated :: (v.nodes ++ low.nodes ++ high.nodes)
  | .inList v es negated => .inList v es negated :: (v.nodes ++ nodesOfList es)
  | .inSubquery v q negated => .inSubquery v q negated :: (v.nodes ++ q.nodes)
  | .isNull v negated => .isNull v negated :: v.nodes
  | .isEmpty p negated => [.isEmpty p negated]
  | .memberOf v p negated => .memberOf v p negated :: v.nodes
  | .exists q negated => .exists q negated :: q.nodes
  | .unary f v => .unary f v :: v.nodes
  | .current m => [.current m]
  | .variadic f es => .variadic f es :: nodesOfList es
  | .substring v start length =>
    .substring v start length :: (v.nodes ++ start.nodes ++ nodesOfOption length)
  | .nullIf l r => .nullIf l r :: (l.nodes ++ r.nodes)
  | .aggregate f distinct v => .aggregate f distinct v :: v.nodes
  | .function name es => .function name es :: nodesOfList es
  | .custom kind es => .custom kind es :: nodesOfList es

/-- The expressions in an optional expression. -/
def nodesOfOption : Option Expr → List Expr
  | none => []
  | some e => e.nodes

/-- The expressions in a list of expressions. -/
def nodesOfList : List Expr → List Expr
  | [] => []
  | e :: es => e.nodes ++ nodesOfList es

/-- The expressions in the arms of a choice, each condition before its result. -/
def nodesOfArms : List Arm → List Expr
  | [] => []
  | ⟨condition, result⟩ :: arms => condition.nodes ++ result.nodes ++ nodesOfArms arms

/-- The expressions of a selecting query, clause by clause. -/
def Select.nodes : Select → List Expr
  | ⟨_, _, items, sources, filter, groupBy, having, orderBy⟩ =>
    nodesOfList items ++ nodesOfSources sources ++ nodesOfOption filter ++ nodesOfList groupBy
      ++ nodesOfOption having ++ nodesOfKeys orderBy

/-- The expressions in the items of a `FROM` clause: the conditions of their joins. -/
def nodesOfSources : List Source → List Expr
  | [] => []
  | ⟨_, joins⟩ :: sources => nodesOfJoins joins ++ nodesOfSources sources

/-- The expressions in the conditions of joins. -/
def nodesOfJoins : List Join → List Expr
  | [] => []
  | ⟨_, _, _, condition⟩ :: joins => nodesOfOption condition ++ nodesOfJoins joins

/-- The expressions that are sorted by. -/
def nodesOfKeys : List SortKey → List Expr
  | [] => []
  | ⟨key, _, _⟩ :: keys => key.nodes ++ nodesOfKeys keys

end

/-- The expressions of a query that changes attributes: the values, then the condition. -/
def Update.nodes (q : Update) : List Expr :=
  q.assignments.flatMap (fun a => a.value.nodes) ++ nodesOfOption q.filter

/-- The expressions of a query that removes entities. -/
def Delete.nodes (q : Delete) : List Expr := nodesOfOption q.filter

/-- The expressions of a query. -/
def Query.nodes : Query → List Expr
  | .select q => q.nodes
  | .update q => q.nodes
  | .delete q => q.nodes

/-- The value of a literal. -/
def Expr.literalValue? : Expr → Option Value
  | .literal v => some v
  | _ => none

/-- The name of a named parameter and the value it brings. -/
def Expr.parameter? : Expr → Option (String × Option Value)
  | .parameter name v => some (name, v)
  | _ => none

/-- The literals of a query. -/
def Query.literals (q : Query) : List Value := q.nodes.filterMap Expr.literalValue?

/-- The named parameters of a query. -/
def Query.parameters (q : Query) : List (String × Option Value) :=
  q.nodes.filterMap Expr.parameter?

end PersistenceQuery
