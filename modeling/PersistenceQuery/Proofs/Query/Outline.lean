import PersistenceQuery.Proofs.Query.Checked
import PersistenceQuery.Rendering.Writing

/-!
# Queries without the values of their literals

The outline of a query is what is left of it when nothing is known about its literals, except under
a minus sign: there it is kept whether the literal is negative, since another minus sign in front of
it would open a comment.  Two queries with the same outline differ in the values of their literals
only.

## Main definitions

* `Expr.outline`, `Select.outline`, `Query.outline` — the outline of an expression and of a query.

## Main results

* `Expr.strength_outline`, `Query.checkShape_outline`, `Query.parameters_outline` — how tightly an
  expression binds, whether a query keeps the rules and what its parameters are can be told from the
  outline.
-/

namespace PersistenceQuery

mutual

/-- An expression without the values of its literals. -/
def Expr.outline : Expr → Expr
  | .literal _ => .literal .null
  | .parameter name embedded => .parameter name embedded
  | .path p => .path p
  | .entity e => .entity e
  | .aliased v label => .aliased v.outline label
  | .arithmetic op l r => .arithmetic op l.outline r.outline
  | .negate v => .negate (if v.isNegativeLiteral then .literal (.int (-1)) else v.outline)
  | .choice operand arms otherwise =>
    .choice (outlineOfOption operand) (outlineOfArms arms) (outlineOfOption otherwise)
  | .subquery q => .subquery q.outline
  | .comparison op l r => .comparison op l.outline r.outline
  | .logical op es => .logical op (outlineOfList es)
  | .not e => .not e.outline
  | .like v p escape negated => .like v.outline p.outline escape negated
  | .between v low high negated => .between v.outline low.outline high.outline negated
  | .inList v es negated => .inList v.outline (outlineOfList es) negated
  | .inSubquery v q negated => .inSubquery v.outline q.outline negated
  | .isNull v negated => .isNull v.outline negated
  | .isEmpty p negated => .isEmpty p negated
  | .memberOf v p negated => .memberOf v.outline p negated
  | .exists q negated => .exists q.outline negated
  | .unary f v => .unary f v.outline
  | .current m => .current m
  | .variadic f es => .variadic f (outlineOfList es)
  | .substring v start length => .substring v.outline start.outline (outlineOfOption length)
  | .nullIf l r => .nullIf l.outline r.outline
  | .aggregate f distinct v => .aggregate f distinct v.outline
  | .function name es => .function name (outlineOfList es)
  | .custom kind es => .custom kind (outlineOfList es)

def outlineOfOption : Option Expr → Option Expr
  | none => none
  | some e => some e.outline

def outlineOfList : List Expr → List Expr
  | [] => []
  | e :: es => e.outline :: outlineOfList es

def Arm.outline : Arm → Arm
  | ⟨condition, result⟩ => ⟨condition.outline, result.outline⟩

def outlineOfArms : List Arm → List Arm
  | [] => []
  | arm :: arms => arm.outline :: outlineOfArms arms

/-- A selecting query without the values of its literals. -/
def Select.outline : Select → Select
  | ⟨resultType, distinct, items, sources, filter, groupBy, having, orderBy⟩ =>
    ⟨resultType, distinct, outlineOfList items, outlineOfSources sources, outlineOfOption filter,
      outlineOfList groupBy, outlineOfOption having, outlineOfKeys orderBy⟩

def Source.outline : Source → Source
  | ⟨entity, joins⟩ => ⟨entity, outlineOfJoins joins⟩

def outlineOfSources : List Source → List Source
  | [] => []
  | source :: sources => source.outline :: outlineOfSources sources

def Join.outline : Join → Join
  | ⟨kind, fetch, target, condition⟩ => ⟨kind, fetch, target, outlineOfOption condition⟩

def outlineOfJoins : List Join → List Join
  | [] => []
  | join :: joins => join.outline :: outlineOfJoins joins

def SortKey.outline : SortKey → SortKey
  | ⟨key, order, nulls⟩ => ⟨key.outline, order, nulls⟩

def outlineOfKeys : List SortKey → List SortKey
  | [] => []
  | key :: keys => key.outline :: outlineOfKeys keys

end

def Assignment.outline (a : Assignment) : Assignment := { a with value := a.value.outline }

def Update.outline (q : Update) : Update :=
  { q with
    assignments := q.assignments.map Assignment.outline
    filter := outlineOfOption q.filter }

def Delete.outline (q : Delete) : Delete := { q with filter := outlineOfOption q.filter }

/-- A query without the values of its literals. -/
def Query.outline : Query → Query
  | .select q => .select q.outline
  | .update q => .update q.outline
  | .delete q => .delete q.outline

/-! ### Lists -/

theorem outlineOfList_eq (es : List Expr) : outlineOfList es = es.map Expr.outline := by
  induction es with
  | nil => rfl
  | cons e es ih => rw [outlineOfList, ih, List.map_cons]

@[simp] theorem isEmpty_outlineOfList (es : List Expr) :
    (outlineOfList es).isEmpty = es.isEmpty := by
  rw [outlineOfList_eq, List.isEmpty_map]

theorem outlineOfSources_eq (sources : List Source) :
    outlineOfSources sources = sources.map Source.outline := by
  induction sources with
  | nil => rfl
  | cons source sources ih => rw [outlineOfSources, ih, List.map_cons]

theorem outlineOfJoins_eq (joins : List Join) :
    outlineOfJoins joins = joins.map Join.outline := by
  induction joins with
  | nil => rfl
  | cons join joins ih => rw [outlineOfJoins, ih, List.map_cons]

theorem outlineOfKeys_eq (keys : List SortKey) :
    outlineOfKeys keys = keys.map SortKey.outline := by
  induction keys with
  | nil => rfl
  | cons key keys ih => rw [outlineOfKeys, ih, List.map_cons]

@[simp] theorem isEmpty_outlineOfKeys (keys : List SortKey) :
    (outlineOfKeys keys).isEmpty = keys.isEmpty := by
  rw [outlineOfKeys_eq, List.isEmpty_map]

/-! ### What an outline tells -/

@[simp] theorem Expr.form_outline (e : Expr) : e.outline.form = e.form := by
  cases e <;> rfl

mutual

@[simp] theorem Expr.strength_outline : ∀ e : Expr, e.outline.strength = e.strength
  | .logical op es => LogicalOp.strengthOver_outline op es
  | .literal _ | .parameter _ _ | .path _ | .entity _ | .aliased _ _ | .arithmetic _ _ _
  | .negate _ | .choice _ _ _ | .subquery _ | .comparison _ _ _ | .not _ | .like _ _ _ _
  | .between _ _ _ _ | .inList _ _ _ | .inSubquery _ _ _ | .isNull _ _ | .isEmpty _ _
  | .memberOf _ _ _ | .exists _ _ | .unary _ _ | .current _ | .variadic _ _ | .substring _ _ _
  | .nullIf _ _ | .aggregate _ _ _ | .function _ _ | .custom _ _ => rfl

theorem LogicalOp.strengthOver_outline (op : LogicalOp) :
    ∀ es : List Expr, op.strengthOver (outlineOfList es) = op.strengthOver es
  | [] => rfl
  | [e] => e.strength_outline
  | _ :: _ :: _ => rfl

end

@[simp] theorem ArithmeticOp.rightSide_outline (op : ArithmeticOp) (e : Expr) :
    op.rightSide e.outline = op.rightSide e := by
  cases e <;> rfl

/-- The outline of an expression is no negative literal, but under a minus sign. -/
@[simp] theorem Expr.isNegativeLiteral_outline (e : Expr) :
    e.outline.isNegativeLiteral = false := by
  cases e <;> rfl

theorem Expr.exists_of_isNegativeLiteral {e : Expr} (h : e.isNegativeLiteral = true) :
    ∃ v, e = .literal v := by
  cases e with
  | literal v => exact ⟨v, rfl⟩
  | _ => cases h

/-! ### The rules -/

theorem Join.checkShape_outline (j : Join) : j.outline.checkShape = j.checkShape := by
  obtain ⟨kind, fetch, target, condition⟩ := j
  cases condition <;> rfl

theorem Source.checkShape_outline (s : Source) : s.outline.checkShape = s.checkShape := by
  obtain ⟨entity, joins⟩ := s
  simp only [Source.outline, Source.checkShape, outlineOfJoins_eq, List.forM_eq_forM,
    List.forM_map, Join.checkShape_outline]

theorem Select.checkShape_outline (q : Select) : q.outline.checkShape = q.checkShape := by
  obtain ⟨resultType, distinct, items, sources, filter, groupBy, having, orderBy⟩ := q
  simp only [Select.outline, Select.checkShape, isEmpty_outlineOfList, outlineOfSources_eq,
    List.isEmpty_map, List.forM_eq_forM, List.forM_map, Source.checkShape_outline]

/-- An expression keeps its own rules if its outline does. -/
theorem Expr.checkShape_outline (e : Expr) : e.outline.checkShape = e.checkShape := by
  cases e with
  | subquery q => exact q.checkShape_outline
  | «exists» q negated => exact q.checkShape_outline
  | inSubquery v q negated => exact q.checkShape_outline
  | inList v es negated =>
    simp only [Expr.outline, Expr.checkShape, isEmpty_outlineOfList]
  | _ => rfl

theorem Query.checkRoot_outline (q : Query) : q.outline.checkRoot = q.checkRoot := by
  cases q with
  | select q => exact q.checkShape_outline
  | update q =>
    simp only [Query.outline, Query.checkRoot, Update.outline, List.isEmpty_map]
  | delete q => rfl

/-! ### The nodes -/

section
variable {α : Type} {g : Expr → α}

theorem map_append_congr {as as' bs bs' : List Expr} (ha : as.map g = as'.map g)
    (hb : bs.map g = bs'.map g) : (as ++ bs).map g = (as' ++ bs').map g := by
  rw [List.map_append, List.map_append, ha, hb]

theorem Expr.map_cons_outline (hg : ∀ e : Expr, g e.outline = g e) (e : Expr) {ns ms : List Expr}
    (h : ns.map g = ms.map g) : (e.outline :: ns).map g = (e :: ms).map g := by
  rw [List.map_cons, List.map_cons, hg, h]

/-- Two literals look the same, negative or not. -/
theorem Expr.apply_literal (hg : ∀ e : Expr, g e.outline = g e) (v w : Value) :
    g (.literal v) = g (.literal w) :=
  (hg (.literal v)).symm.trans (hg (.literal w))

mutual

/-- What can be told of an expression from its outline can be told of all expressions inside it. -/
theorem Expr.map_nodes_outline (hg : ∀ e : Expr, g e.outline = g e) :
    ∀ e : Expr, e.outline.nodes.map g = e.nodes.map g
  | .literal v => Expr.map_cons_outline hg (.literal v) rfl
  | .parameter name embedded => Expr.map_cons_outline hg (.parameter name embedded) rfl
  | .path p => Expr.map_cons_outline hg (.path p) rfl
  | .entity e => Expr.map_cons_outline hg (.entity e) rfl
  | .isEmpty p negated => Expr.map_cons_outline hg (.isEmpty p negated) rfl
  | .current m => Expr.map_cons_outline hg (.current m) rfl
  | .aliased v label => Expr.map_cons_outline hg (.aliased v label) (v.map_nodes_outline hg)
  | .negate v => by
    have hv := v.map_nodes_outline hg
    refine Expr.map_cons_outline hg (.negate v) ?_
    split
    · next hnegative =>
      obtain ⟨w, rfl⟩ := Expr.exists_of_isNegativeLiteral hnegative
      exact congrArg (fun x => [x]) (Expr.apply_literal hg _ w)
    · exact hv
  | .not e => Expr.map_cons_outline hg (.not e) (e.map_nodes_outline hg)
  | .isNull v negated => Expr.map_cons_outline hg (.isNull v negated) (v.map_nodes_outline hg)
  | .memberOf v p negated =>
    Expr.map_cons_outline hg (.memberOf v p negated) (v.map_nodes_outline hg)
  | .unary f v => Expr.map_cons_outline hg (.unary f v) (v.map_nodes_outline hg)
  | .aggregate f distinct v =>
    Expr.map_cons_outline hg (.aggregate f distinct v) (v.map_nodes_outline hg)
  | .arithmetic op l r => Expr.map_cons_outline hg (.arithmetic op l r)
    (map_append_congr (l.map_nodes_outline hg) (r.map_nodes_outline hg))
  | .comparison op l r => Expr.map_cons_outline hg (.comparison op l r)
    (map_append_congr (l.map_nodes_outline hg) (r.map_nodes_outline hg))
  | .nullIf l r => Expr.map_cons_outline hg (.nullIf l r)
    (map_append_congr (l.map_nodes_outline hg) (r.map_nodes_outline hg))
  | .like v p escape negated => Expr.map_cons_outline hg (.like v p escape negated)
    (map_append_congr (v.map_nodes_outline hg) (p.map_nodes_outline hg))
  | .between v low high negated => Expr.map_cons_outline hg (.between v low high negated)
    (map_append_congr (map_append_congr (v.map_nodes_outline hg) (low.map_nodes_outline hg))
      (high.map_nodes_outline hg))
  | .substring v start length => Expr.map_cons_outline hg (.substring v start length)
    (map_append_congr (map_append_congr (v.map_nodes_outline hg) (start.map_nodes_outline hg))
      (map_nodesOfOption_outline hg length))
  | .choice operand arms otherwise => Expr.map_cons_outline hg (.choice operand arms otherwise)
    (map_append_congr (map_append_congr (map_nodesOfOption_outline hg operand)
      (map_nodesOfArms_outline hg arms)) (map_nodesOfOption_outline hg otherwise))
  | .subquery q => Expr.map_cons_outline hg (.subquery q) (q.map_nodes_outline hg)
  | .exists q negated => Expr.map_cons_outline hg (.exists q negated) (q.map_nodes_outline hg)
  | .inSubquery v q negated => Expr.map_cons_outline hg (.inSubquery v q negated)
    (map_append_congr (v.map_nodes_outline hg) (q.map_nodes_outline hg))
  | .inList v es negated => Expr.map_cons_outline hg (.inList v es negated)
    (map_append_congr (v.map_nodes_outline hg) (map_nodesOfList_outline hg es))
  | .logical op es => Expr.map_cons_outline hg (.logical op es) (map_nodesOfList_outline hg es)
  | .variadic f es => Expr.map_cons_outline hg (.variadic f es) (map_nodesOfList_outline hg es)
  | .function name es =>
    Expr.map_cons_outline hg (.function name es) (map_nodesOfList_outline hg es)
  | .custom kind es => Expr.map_cons_outline hg (.custom kind es) (map_nodesOfList_outline hg es)

theorem map_nodesOfOption_outline (hg : ∀ e : Expr, g e.outline = g e) :
    ∀ o : Option Expr, (nodesOfOption (outlineOfOption o)).map g = (nodesOfOption o).map g
  | none => rfl
  | some e => e.map_nodes_outline hg

theorem map_nodesOfList_outline (hg : ∀ e : Expr, g e.outline = g e) :
    ∀ es : List Expr, (nodesOfList (outlineOfList es)).map g = (nodesOfList es).map g
  | [] => rfl
  | e :: es => map_append_congr (e.map_nodes_outline hg) (map_nodesOfList_outline hg es)

theorem map_nodesOfArms_outline (hg : ∀ e : Expr, g e.outline = g e) :
    ∀ arms : List Arm, (nodesOfArms (outlineOfArms arms)).map g = (nodesOfArms arms).map g
  | [] => rfl
  | ⟨condition, result⟩ :: arms => map_append_congr (map_append_congr
    (condition.map_nodes_outline hg) (result.map_nodes_outline hg))
      (map_nodesOfArms_outline hg arms)

theorem Select.map_nodes_outline (hg : ∀ e : Expr, g e.outline = g e) :
    ∀ q : Select, q.outline.nodes.map g = q.nodes.map g
  | ⟨_, _, items, sources, filter, groupBy, having, orderBy⟩ =>
    map_append_congr (map_append_congr (map_append_congr (map_append_congr (map_append_congr
      (map_nodesOfList_outline hg items) (map_nodesOfSources_outline hg sources))
      (map_nodesOfOption_outline hg filter)) (map_nodesOfList_outline hg groupBy))
      (map_nodesOfOption_outline hg having)) (map_nodesOfKeys_outline hg orderBy)

theorem map_nodesOfSources_outline (hg : ∀ e : Expr, g e.outline = g e) :
    ∀ sources : List Source,
      (nodesOfSources (outlineOfSources sources)).map g = (nodesOfSources sources).map g
  | [] => rfl
  | ⟨_, joins⟩ :: sources => map_append_congr (map_nodesOfJoins_outline hg joins)
    (map_nodesOfSources_outline hg sources)

theorem map_nodesOfJoins_outline (hg : ∀ e : Expr, g e.outline = g e) :
    ∀ joins : List Join, (nodesOfJoins (outlineOfJoins joins)).map g = (nodesOfJoins joins).map g
  | [] => rfl
  | ⟨_, _, _, condition⟩ :: joins => map_append_congr (map_nodesOfOption_outline hg condition)
    (map_nodesOfJoins_outline hg joins)

theorem map_nodesOfKeys_outline (hg : ∀ e : Expr, g e.outline = g e) :
    ∀ keys : List SortKey, (nodesOfKeys (outlineOfKeys keys)).map g = (nodesOfKeys keys).map g
  | [] => rfl
  | ⟨key, _, _⟩ :: keys => map_append_congr (key.map_nodes_outline hg)
    (map_nodesOfKeys_outline hg keys)

end

/-- What can be told of an expression from its outline can be told of all expressions of a query
from the outline of the query. -/
theorem Query.map_nodes_outline (hg : ∀ e : Expr, g e.outline = g e) (q : Query) :
    q.outline.nodes.map g = q.nodes.map g := by
  cases q with
  | select q => exact q.map_nodes_outline hg
  | update q =>
    refine map_append_congr ?_ (map_nodesOfOption_outline hg q.filter)
    simp only [Update.outline, List.flatMap_map, List.map_flatMap, Assignment.outline,
      Expr.map_nodes_outline hg]
  | delete q => exact map_nodesOfOption_outline hg q.filter

end

/-- A query keeps the rules if its outline does. -/
theorem Query.checkShape_outline (q : Query) : q.outline.checkShape = q.checkShape := by
  have hnodes := q.map_nodes_outline Expr.checkShape_outline
  rw [Query.checkShape, Query.checkShape, Query.checkRoot_outline, forM_eq_forM_map,
    forM_eq_forM_map _ q.nodes, hnodes]

theorem Expr.parameter?_outline (e : Expr) : e.outline.parameter? = e.parameter? := by
  cases e <;> rfl

/-- A query has the parameters of its outline. -/
theorem Query.parameters_outline (q : Query) : q.outline.parameters = q.parameters := by
  have hnodes := congrArg (List.filterMap id) (q.map_nodes_outline Expr.parameter?_outline)
  rwa [List.filterMap_map, List.filterMap_map] at hnodes

end PersistenceQuery
