import PersistenceQuery.Query.Nodes

/-!
# A tour of a query

The parts of a query in the order in which they come up while it is written.  A tour enters a part
before the parts inside it and leaves it behind them, so that whatever a part contributes in front
of its inner parts or behind them can be said part by part.

## Main definitions

* `Visit` — a part is entered or left.
* `Query.tour` — the visits of a query, clause by clause.
* `Query.parts` — the parts in the order in which they are entered.

## Main results

* `Query.filterMap_tour` — the expressions that a tour enters are the nodes of the query.
-/

namespace PersistenceQuery

/-- One step of a tour. -/
inductive Visit
  /-- In front of the parts inside the part. -/
  | enter (p : Part)
  /-- Behind the parts inside the part. -/
  | leave (p : Part)

/-- A part with the visits inside it. -/
def around (p : Part) (inner : List Visit) : List Visit := .enter p :: (inner ++ [.leave p])

/-- The visit of a part without parts inside it. -/
def stopover (p : Part) : List Visit := around p []

/-- A joined entity is a part; an association is written by its join. -/
def JoinTarget.tour : JoinTarget → List Visit
  | .entity e => stopover (.entity e)
  | .association _ _ => []

mutual

/-- The tour of an expression. -/
def Expr.tour : Expr → List Visit
  | .literal v => stopover (.expr (.literal v))
  | .parameter name v => stopover (.expr (.parameter name v))
  | .path p => stopover (.expr (.path p))
  | .entity e => stopover (.expr (.entity e))
  | .aliased v label => around (.expr (.aliased v label)) v.tour
  | .arithmetic op l r => around (.expr (.arithmetic op l r)) (l.tour ++ r.tour)
  | .negate v => around (.expr (.negate v)) v.tour
  | .choice operand arms otherwise =>
    around (.expr (.choice operand arms otherwise))
      (tourOfOption operand ++ tourOfArms arms ++ tourOfOption otherwise)
  | .subquery q => around (.expr (.subquery q)) q.tour
  | .comparison op l r => around (.expr (.comparison op l r)) (l.tour ++ r.tour)
  | .logical op es => around (.expr (.logical op es)) (tourOfList es)
  | .not e => around (.expr (.not e)) e.tour
  | .like v p escape negated => around (.expr (.like v p escape negated)) (v.tour ++ p.tour)
  | .between v low high negated =>
    around (.expr (.between v low high negated)) (v.tour ++ low.tour ++ high.tour)
  | .inList v es negated => around (.expr (.inList v es negated)) (v.tour ++ tourOfList es)
  | .inSubquery v q negated => around (.expr (.inSubquery v q negated)) (v.tour ++ q.tour)
  | .isNull v negated => around (.expr (.isNull v negated)) v.tour
  | .isEmpty p negated => stopover (.expr (.isEmpty p negated))
  | .memberOf v p negated => around (.expr (.memberOf v p negated)) v.tour
  | .exists q negated => around (.expr (.exists q negated)) q.tour
  | .unary f v => around (.expr (.unary f v)) v.tour
  | .current m => stopover (.expr (.current m))
  | .variadic f es => around (.expr (.variadic f es)) (tourOfList es)
  | .substring v start length =>
    around (.expr (.substring v start length)) (v.tour ++ start.tour ++ tourOfOption length)
  | .nullIf l r => around (.expr (.nullIf l r)) (l.tour ++ r.tour)
  | .aggregate f distinct v => around (.expr (.aggregate f distinct v)) v.tour
  | .function name es => around (.expr (.function name es)) (tourOfList es)
  | .custom kind es => around (.expr (.custom kind es)) (tourOfList es)

/-- The tour of an optional expression. -/
def tourOfOption : Option Expr → List Visit
  | none => []
  | some e => e.tour

/-- The tour of expressions one after the other. -/
def tourOfList : List Expr → List Visit
  | [] => []
  | e :: es => e.tour ++ tourOfList es

/-- The tour of the arms of a choice, each condition before its result. -/
def tourOfArms : List Arm → List Visit
  | [] => []
  | ⟨condition, result⟩ :: arms => condition.tour ++ result.tour ++ tourOfArms arms

/-- The tour of a selecting query, clause by clause. -/
def Select.tour : Select → List Visit
  | ⟨resultType, distinct, items, sources, filter, groupBy, having, orderBy⟩ =>
    around (.select ⟨resultType, distinct, items, sources, filter, groupBy, having, orderBy⟩)
      (tourOfList items ++ tourOfSources sources ++ tourOfOption filter ++ tourOfList groupBy
        ++ tourOfOption having ++ tourOfKeys orderBy)

/-- The tour of a `FROM` clause: each entity and then its joins. -/
def tourOfSources : List Source → List Visit
  | [] => []
  | ⟨entity, joins⟩ :: sources =>
    stopover (.entity entity) ++ tourOfJoins joins ++ tourOfSources sources

/-- The tour of joins, what is joined before the condition. -/
def tourOfJoins : List Join → List Visit
  | [] => []
  | ⟨kind, fetch, target, condition⟩ :: joins =>
    around (.join ⟨kind, fetch, target, condition⟩) (target.tour ++ tourOfOption condition)
      ++ tourOfJoins joins

/-- The tour of the keys of an `ORDER BY` clause. -/
def tourOfKeys : List SortKey → List Visit
  | [] => []
  | ⟨key, order, nulls⟩ :: keys => around (.sort ⟨key, order, nulls⟩) key.tour ++ tourOfKeys keys

end

/-- The tour of an assignment. -/
def Assignment.tour (a : Assignment) : List Visit := around (.assignment a) a.value.tour

/-- The tour of a query that changes attributes. -/
def Update.tour (q : Update) : List Visit :=
  around (.update q)
    (stopover (.entity q.entity) ++ q.assignments.flatMap Assignment.tour ++ tourOfOption q.filter)

/-- The tour of a query that removes entities. -/
def Delete.tour (q : Delete) : List Visit :=
  around (.delete q) (stopover (.entity q.entity) ++ tourOfOption q.filter)

/-- The tour of a query. -/
def Query.tour : Query → List Visit
  | .select q => q.tour
  | .update q => q.tour
  | .delete q => q.tour

/-- The part that a visit enters. -/
def Visit.entered? : Visit → Option Part
  | enter p => some p
  | leave _ => none

/-- The parts of a query, a part before the parts inside it. -/
def Query.parts (q : Query) : List Part := q.tour.filterMap Visit.entered?

/-! ### The expressions on a tour -/

/-- The expression that a visit enters. -/
def Visit.node? : Visit → Option Expr
  | enter (.expr e) => some e
  | _ => none

@[simp] theorem filterMap_around_expr (e : Expr) (inner : List Visit) :
    (around (.expr e) inner).filterMap Visit.node? = e :: inner.filterMap Visit.node? := by
  simp [around, Visit.node?]

@[simp] theorem filterMap_stopover_expr (e : Expr) :
    (stopover (.expr e)).filterMap Visit.node? = [e] := rfl

/-- A part that is not an expression adds only what is inside it. -/
theorem filterMap_around {p : Part} (h : Visit.node? (.enter p) = none) (inner : List Visit) :
    (around p inner).filterMap Visit.node? = inner.filterMap Visit.node? := by
  rw [around, List.filterMap_cons_none h, List.filterMap_append]
  simp [Visit.node?]

@[simp] theorem filterMap_stopover_entity (e : Entity) :
    (stopover (.entity e)).filterMap Visit.node? = [] := rfl

theorem JoinTarget.filterMap_tour (t : JoinTarget) : t.tour.filterMap Visit.node? = [] := by
  cases t <;> rfl

mutual

/-- A tour enters the nodes of an expression in their order. -/
theorem Expr.filterMap_tour : ∀ e : Expr, e.tour.filterMap Visit.node? = e.nodes
  | .literal _ | .parameter _ _ | .path _ | .entity _ | .isEmpty _ _ | .current _ => rfl
  | .aliased v _ => by simp [Expr.tour, Expr.nodes, v.filterMap_tour]
  | .arithmetic _ l r => by simp [Expr.tour, Expr.nodes, l.filterMap_tour, r.filterMap_tour]
  | .negate v => by simp [Expr.tour, Expr.nodes, v.filterMap_tour]
  | .choice operand arms otherwise => by
    simp [Expr.tour, Expr.nodes, filterMap_tourOfOption operand, filterMap_tourOfArms arms,
      filterMap_tourOfOption otherwise]
  | .subquery q => by simp [Expr.tour, Expr.nodes, q.filterMap_tour]
  | .comparison _ l r => by simp [Expr.tour, Expr.nodes, l.filterMap_tour, r.filterMap_tour]
  | .logical _ es => by simp [Expr.tour, Expr.nodes, filterMap_tourOfList es]
  | .not e => by simp [Expr.tour, Expr.nodes, e.filterMap_tour]
  | .like v p _ _ => by simp [Expr.tour, Expr.nodes, v.filterMap_tour, p.filterMap_tour]
  | .between v low high _ => by
    simp [Expr.tour, Expr.nodes, v.filterMap_tour, low.filterMap_tour, high.filterMap_tour]
  | .inList v es _ => by simp [Expr.tour, Expr.nodes, v.filterMap_tour, filterMap_tourOfList es]
  | .inSubquery v q _ => by simp [Expr.tour, Expr.nodes, v.filterMap_tour, q.filterMap_tour]
  | .isNull v _ => by simp [Expr.tour, Expr.nodes, v.filterMap_tour]
  | .memberOf v _ _ => by simp [Expr.tour, Expr.nodes, v.filterMap_tour]
  | .exists q _ => by simp [Expr.tour, Expr.nodes, q.filterMap_tour]
  | .unary _ v => by simp [Expr.tour, Expr.nodes, v.filterMap_tour]
  | .variadic _ es => by simp [Expr.tour, Expr.nodes, filterMap_tourOfList es]
  | .substring v start length => by
    simp [Expr.tour, Expr.nodes, v.filterMap_tour, start.filterMap_tour,
      filterMap_tourOfOption length]
  | .nullIf l r => by simp [Expr.tour, Expr.nodes, l.filterMap_tour, r.filterMap_tour]
  | .aggregate _ _ v => by simp [Expr.tour, Expr.nodes, v.filterMap_tour]
  | .function _ es => by simp [Expr.tour, Expr.nodes, filterMap_tourOfList es]
  | .custom _ es => by simp [Expr.tour, Expr.nodes, filterMap_tourOfList es]

theorem filterMap_tourOfOption : ∀ o : Option Expr,
    (tourOfOption o).filterMap Visit.node? = nodesOfOption o
  | none => rfl
  | some e => e.filterMap_tour

theorem filterMap_tourOfList : ∀ es : List Expr,
    (tourOfList es).filterMap Visit.node? = nodesOfList es
  | [] => rfl
  | e :: es => by simp [tourOfList, nodesOfList, e.filterMap_tour, filterMap_tourOfList es]

theorem filterMap_tourOfArms : ∀ arms : List Arm,
    (tourOfArms arms).filterMap Visit.node? = nodesOfArms arms
  | [] => rfl
  | ⟨condition, result⟩ :: arms => by
    simp [tourOfArms, nodesOfArms, condition.filterMap_tour, result.filterMap_tour,
      filterMap_tourOfArms arms]

theorem Select.filterMap_tour : ∀ q : Select, q.tour.filterMap Visit.node? = q.nodes
  | ⟨_, _, items, sources, filter, groupBy, having, orderBy⟩ => by
    rw [Select.tour, filterMap_around rfl]
    simp [Select.nodes, filterMap_tourOfList items, filterMap_tourOfSources sources,
      filterMap_tourOfOption filter, filterMap_tourOfList groupBy, filterMap_tourOfOption having,
      filterMap_tourOfKeys orderBy]

theorem filterMap_tourOfSources : ∀ sources : List Source,
    (tourOfSources sources).filterMap Visit.node? = nodesOfSources sources
  | [] => rfl
  | ⟨_, joins⟩ :: sources => by
    simp [tourOfSources, nodesOfSources, filterMap_tourOfJoins joins,
      filterMap_tourOfSources sources]

theorem filterMap_tourOfJoins : ∀ joins : List Join,
    (tourOfJoins joins).filterMap Visit.node? = nodesOfJoins joins
  | [] => rfl
  | ⟨_, _, target, condition⟩ :: joins => by
    rw [tourOfJoins, List.filterMap_append, filterMap_around rfl]
    simp [nodesOfJoins, target.filterMap_tour, filterMap_tourOfOption condition,
      filterMap_tourOfJoins joins]

theorem filterMap_tourOfKeys : ∀ keys : List SortKey,
    (tourOfKeys keys).filterMap Visit.node? = nodesOfKeys keys
  | [] => rfl
  | ⟨key, _, _⟩ :: keys => by
    rw [tourOfKeys, List.filterMap_append, filterMap_around rfl]
    simp [nodesOfKeys, key.filterMap_tour, filterMap_tourOfKeys keys]

end

theorem filterMap_tourOfAssignments (as : List Assignment) :
    (as.flatMap Assignment.tour).filterMap Visit.node? = as.flatMap fun a => a.value.nodes := by
  induction as with
  | nil => rfl
  | cons a as ih =>
    rw [List.flatMap_cons, List.filterMap_append, ih, Assignment.tour, filterMap_around rfl,
      a.value.filterMap_tour, List.flatMap_cons]

/-- The expressions that a tour enters are the nodes of the query, in their order. -/
theorem Query.filterMap_tour (q : Query) : q.tour.filterMap Visit.node? = q.nodes := by
  cases q with
  | select q => exact q.filterMap_tour
  | update q =>
    rw [Query.tour, Update.tour, filterMap_around rfl]
    simp [Query.nodes, Update.nodes, filterMap_tourOfAssignments, filterMap_tourOfOption]
  | delete q =>
    rw [Query.tour, Delete.tour, filterMap_around rfl]
    simp [Query.nodes, Delete.nodes, filterMap_tourOfOption]

/-- An expression among the parts of a query is one of its nodes. -/
theorem Query.mem_nodes_of_mem_parts {q : Query} {e : Expr} (h : Part.expr e ∈ q.parts) :
    e ∈ q.nodes := by
  obtain ⟨v, hv, hp⟩ := List.mem_filterMap.1 h
  rw [← q.filterMap_tour]
  refine List.mem_filterMap.2 ⟨v, hv, ?_⟩
  cases v with
  | enter p =>
    rw [Visit.entered?, Option.some.injEq] at hp
    rw [hp, Visit.node?]
  | leave p => cases hp

/-- A node of a query is one of its parts. -/
theorem Query.mem_parts_of_mem_nodes {q : Query} {e : Expr} (h : e ∈ q.nodes) :
    Part.expr e ∈ q.parts := by
  rw [← q.filterMap_tour] at h
  obtain ⟨v, hv, he⟩ := List.mem_filterMap.1 h
  refine List.mem_filterMap.2 ⟨v, hv, ?_⟩
  unfold Visit.node? at he
  split at he
  · cases he
    rfl
  · cases he

end PersistenceQuery
