import PersistenceQuery.Proofs.Query.Induction

/-!
# Expressions that occur in a query

Where an expression can stand in another one or in a query, said form by form and one step at a
time.  An expression occurs in a query if such steps lead from the query to it.  The expressions
that a query lists as its nodes are exactly those that occur in it, so a check of all nodes leaves
no place out.

## Main definitions

* `Expr.children`, `Select.children`, `Query.children` — the expressions directly inside.
* `Query.Occurs` — the expression stands somewhere in the query, at any depth.
* `Query.Selects` — the selecting query is the query itself, or a subquery somewhere in it.

## Main results

* `Expr.nodes_eq` — the nodes of an expression are itself and the nodes of its children.
* `Expr.of_children` — induction from the children of an expression to the expression.
* `Query.mem_nodes_iff` — the nodes of a query are the expressions that occur in it.
-/

namespace PersistenceQuery

/-! ### One step -/

/-- The expressions in the clauses of a selecting query. -/
def Select.children (q : Select) : List Expr :=
  q.items ++ q.sources.flatMap (fun s => s.joins.flatMap fun j => j.condition.toList)
    ++ q.filter.toList ++ q.groupBy ++ q.having.toList ++ q.orderBy.map SortKey.key

/-- The expressions directly inside an expression; those of a subquery stand in its clauses. -/
def Expr.children : Expr → List Expr
  | .literal _ | .parameter _ _ | .path _ | .entity _ | .isEmpty _ _ | .current _ => []
  | .aliased v _ | .negate v | .not v | .isNull v _ | .memberOf v _ _ | .unary _ v
  | .aggregate _ _ v => [v]
  | .arithmetic _ l r | .comparison _ l r | .like l r _ _ | .nullIf l r => [l, r]
  | .choice operand arms otherwise =>
    operand.toList ++ arms.flatMap (fun a => [a.condition, a.result]) ++ otherwise.toList
  | .subquery q | .exists q _ => q.children
  | .logical _ es | .variadic _ es | .function _ es | .custom _ es => es
  | .between v low high _ => [v, low, high]
  | .inList v es _ => v :: es
  | .inSubquery v q _ => v :: q.children
  | .substring v start length => v :: start :: length.toList

/-- The expressions in the clauses of a query. -/
def Query.children : Query → List Expr
  | .select q => q.children
  | .update q => q.assignments.map Assignment.value ++ q.filter.toList
  | .delete q => q.filter.toList

/-- The selecting query of a scalar subquery, an existence test or a membership test. -/
def Expr.subquery? : Expr → Option Select
  | .subquery q | .exists q _ | .inSubquery _ q _ => some q
  | _ => none

/-- The query, if it selects. -/
def Query.select? : Query → Option Select
  | .select q => some q
  | .update _ | .delete _ => none

/-! ### Any number of steps -/

/-- The expression stands somewhere in the query. -/
inductive Query.Occurs (q : Query) : Expr → Prop
  /-- In a clause of the query. -/
  | clause {e : Expr} (h : e ∈ q.children) : q.Occurs e
  /-- Directly inside an expression that occurs. -/
  | inside {e f : Expr} (he : q.Occurs e) (hf : f ∈ e.children) : q.Occurs f

/-- The selecting query is the query as a whole, or that of a subquery somewhere in it. -/
inductive Query.Selects (q : Query) : Select → Prop
  | root {s : Select} (h : q.select? = some s) : q.Selects s
  | inside {e : Expr} {s : Select} (he : q.Occurs e) (h : e.subquery? = some s) : q.Selects s

/-! ### Nodes and children -/

theorem nodesOfOption_eq (o : Option Expr) : nodesOfOption o = o.toList.flatMap Expr.nodes := by
  cases o <;> simp [nodesOfOption]

theorem nodesOfList_eq (es : List Expr) : nodesOfList es = es.flatMap Expr.nodes := by
  induction es with
  | nil => rfl
  | cons e es ih => rw [nodesOfList, ih, List.flatMap_cons]

theorem nodesOfArms_eq (arms : List Arm) :
    nodesOfArms arms = (arms.flatMap fun a => [a.condition, a.result]).flatMap Expr.nodes := by
  induction arms with
  | nil => rfl
  | cons arm arms ih =>
    obtain ⟨condition, result⟩ := arm
    simp [nodesOfArms, ih]

theorem nodesOfJoins_eq (joins : List Join) :
    nodesOfJoins joins = (joins.flatMap fun j => j.condition.toList).flatMap Expr.nodes := by
  induction joins with
  | nil => rfl
  | cons j joins ih =>
    obtain ⟨kind, fetch, target, condition⟩ := j
    rw [nodesOfJoins, ih, nodesOfOption_eq, List.flatMap_cons, List.flatMap_append]

theorem nodesOfSources_eq (sources : List Source) :
    nodesOfSources sources
      = (sources.flatMap fun s => s.joins.flatMap fun j => j.condition.toList).flatMap
        Expr.nodes := by
  induction sources with
  | nil => rfl
  | cons s sources ih =>
    obtain ⟨entity, joins⟩ := s
    rw [nodesOfSources, ih, nodesOfJoins_eq, List.flatMap_cons, List.flatMap_append]

theorem nodesOfKeys_eq (keys : List SortKey) :
    nodesOfKeys keys = (keys.map SortKey.key).flatMap Expr.nodes := by
  induction keys with
  | nil => rfl
  | cons k keys ih =>
    obtain ⟨key, order, nulls⟩ := k
    rw [nodesOfKeys, ih, List.map_cons, List.flatMap_cons]

theorem Select.nodes_eq (q : Select) : q.nodes = q.children.flatMap Expr.nodes := by
  obtain ⟨resultType, distinct, items, sources, filter, groupBy, having, orderBy⟩ := q
  simp only [Select.nodes, Select.children, nodesOfOption_eq, nodesOfList_eq, nodesOfSources_eq,
    nodesOfKeys_eq, List.flatMap_append]

/-- The nodes of an expression: itself, and the nodes of the expressions directly inside. -/
theorem Expr.nodes_eq (e : Expr) : e.nodes = e :: e.children.flatMap Expr.nodes := by
  cases e <;>
    simp [Expr.nodes, Expr.children, nodesOfOption_eq, nodesOfList_eq, nodesOfArms_eq,
      Select.nodes_eq]

/-- The nodes of a child are nodes. -/
theorem Expr.mem_nodes_of_child {e c n : Expr} (hc : c ∈ e.children) (hn : n ∈ c.nodes) :
    n ∈ e.nodes := by
  rw [e.nodes_eq]
  exact List.mem_cons_of_mem _ (List.mem_flatMap.2 ⟨c, hc, hn⟩)

theorem Query.nodes_eq (q : Query) : q.nodes = q.children.flatMap Expr.nodes := by
  cases q with
  | select q => exact q.nodes_eq
  | update q =>
    rw [Query.nodes, Update.nodes, Query.children, nodesOfOption_eq, List.flatMap_append,
      List.flatMap_map]
  | delete q => exact nodesOfOption_eq q.filter

/-- What an expression with `R` has whenever the expressions directly inside it have it is
inherited. -/
theorem Inherited.of_children {R Q : Expr → Prop}
    (step : ∀ e : Expr, R e → (∀ c ∈ e.children, Q c) → Q e) : Inherited R Q := by
  intro e he htail
  refine step e he fun c hc => htail c ?_
  rw [e.nodes_eq, List.tail_cons]
  exact List.mem_flatMap.2 ⟨c, hc, c.self_mem_nodes⟩

/-- What an expression has whenever the expressions directly inside it have it, every expression
has. -/
theorem Expr.of_children {Q : Expr → Prop} (step : ∀ e : Expr, (∀ c ∈ e.children, Q c) → Q e)
    (e : Expr) : Q e := by
  have hstep : Inherited (fun _ => True) Q := .of_children fun e _ hc => step e hc
  exact Expr.reaches hstep e (fun _ _ => trivial) e e.self_mem_nodes

/-- Children of nodes are nodes. -/
theorem Expr.mem_nodes_of_mem_children (e : Expr) :
    ∀ n ∈ e.nodes, ∀ c ∈ n.children, c ∈ e.nodes := by
  induction e using Expr.of_children with
  | step e ih =>
    intro n hn c hc
    rw [e.nodes_eq, List.mem_cons, List.mem_flatMap] at hn
    rcases hn with rfl | ⟨d, hd, hn⟩
    · exact Expr.mem_nodes_of_child hc c.self_mem_nodes
    · exact Expr.mem_nodes_of_child hd (ih d hd n hn c hc)

/-- All nodes of an expression that occurs in a query occur in it. -/
theorem Query.Occurs.of_mem_nodes {q : Query} {e : Expr} (he : q.Occurs e) :
    ∀ n ∈ e.nodes, q.Occurs n := by
  induction e using Expr.of_children with
  | step e ih =>
    intro n hn
    rw [e.nodes_eq, List.mem_cons, List.mem_flatMap] at hn
    rcases hn with rfl | ⟨c, hc, hn⟩
    · exact he
    · exact ih c hc (he.inside hc) n hn

/-- The nodes of a query are the expressions that occur in it. -/
theorem Query.mem_nodes_iff {q : Query} {e : Expr} : e ∈ q.nodes ↔ q.Occurs e := by
  rw [q.nodes_eq, List.mem_flatMap]
  constructor
  · rintro ⟨c, hc, he⟩
    exact Query.Occurs.of_mem_nodes (.clause hc) e he
  · intro h
    induction h with
    | @clause e he => exact ⟨e, he, e.self_mem_nodes⟩
    | inside _ hf ih =>
      obtain ⟨c, hc, he⟩ := ih
      exact ⟨c, hc, c.mem_nodes_of_mem_children _ he _ hf⟩

end PersistenceQuery
