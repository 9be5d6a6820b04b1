import PersistenceQuery.Proofs.Exchange.Forms

/-!
# Reading back queries

A query is read back from its JSON form as it was, and so is everything that it is made of: no two
forms can be taken for one another, and nothing that may be absent is lost, such as a parameter
that brings the value `null` against one that brings none.  Only a floating point number that JSON
has no number for is lost, so all those of the query have to be finite.

The fields of an object may stand in any order, as in a tree that keeps them sorted by their keys.

## Main definitions

* `Expr.values`, `Query.values` — the values of literals, and those that parameters bring.

## Main results

* `Query.isRead_nodes` — all expressions of a query with finite values are read back.
* `ofJson?_toJson` — reading undoes writing, for queries and all their parts.
-/

namespace PersistenceQuery

open Json

/-! ### Values -/

/-- The values in an expression. -/
def Expr.values (e : Expr) : List Value := e.nodes.flatMap Expr.ownValues

/-- The values in a query. -/
def Query.values (q : Query) : List Value := q.nodes.flatMap Expr.ownValues

/-- The values in the condition of a join. -/
def Join.values (join : Join) : List Value := join.condition.toList.flatMap Expr.values

theorem Expr.isRead_inherited :
    Inherited (fun e => ∀ v ∈ e.ownValues, v.isFinite = true) Expr.IsRead :=
  .of_children Expr.isRead_of_children

theorem Expr.isRead {e : Expr} (h : ∀ v ∈ e.values, v.isFinite = true) : e.IsRead :=
  Expr.reaches Expr.isRead_inherited e (List.forall_mem_flatMap.1 h) e e.self_mem_nodes

/-- All expressions of a query with finite values are read back. -/
theorem Query.isRead_nodes {q : Query} (h : ∀ v ∈ q.values, v.isFinite = true) :
    ∀ e ∈ q.nodes, e.IsRead :=
  Query.forall_nodes Expr.isRead_inherited (List.forall_mem_flatMap.1 h)

/-! ### Queries -/

theorem Assignment.reads {a : Assignment} (h : a.value.IsRead) :
    Reads Assignment.ofJson? a.toJson a := by
  refine .record rfl (by simp) fun hr holds => ?_
  exact andThen hr <|
    andThen (holds.required (by simp) fun _ => a.path.reads _) <|
    andThen (holds.required (by simp) fun _ => h _) rfl

theorem Update.reads {q : Update} (hvalues : ∀ a ∈ q.assignments, a.value.IsRead)
    (hfilter : ∀ e ∈ q.filter.toList, e.IsRead) : Reads Update.ofJson? q.toJson q := by
  refine .record rfl (by simp) fun hr holds => ?_
  have hset : Reads (list? Assignment.ofJson?) (.array (q.assignments.map Assignment.toJson))
      q.assignments := .list fun a ha => Assignment.reads (hvalues a ha)
  exact andThen hr <|
    andThen (holds.required (by simp) fun _ => q.entity.reads _) <|
    andThen (holds.required (by simp) fun _ => hset _) <|
    andThen (holds.optionalExpr (by simp) hfilter) rfl

theorem Delete.reads {q : Delete} (hfilter : ∀ e ∈ q.filter.toList, e.IsRead) :
    Reads Delete.ofJson? q.toJson q := by
  refine .record rfl (by simp) fun hr holds => ?_
  exact andThen hr <|
    andThen (holds.required (by simp) fun _ => q.entity.reads _) <|
    andThen (holds.optionalExpr (by simp) hfilter) rfl

/-- A query is read back if the expressions in its clauses are. -/
theorem Query.reads {q : Query} (h : ∀ e ∈ q.children, e.IsRead) :
    Reads Query.ofJson? q.toJson q := by
  intro i hi
  cases q with
  | select q =>
    obtain ⟨w, rfl, hw⟩ := hi.exists_single
    exact (Select.reads h).map Query.select w hw
  | update q =>
    obtain ⟨hvalues, hfilter⟩ := List.forall_mem_append.1 h
    obtain ⟨w, rfl, hw⟩ := hi.exists_single
    exact (Update.reads (List.forall_mem_map.1 hvalues) hfilter).map Query.update w hw
  | delete q =>
    obtain ⟨w, rfl, hw⟩ := hi.exists_single
    exact (Delete.reads h).map Query.delete w hw

/-- Reading undoes writing.  From the JSON form of a query, and from every tree that is this form
but for the order of fields, the same query is read, if its floating point numbers are finite; and
so is a single expression, value, path, entity, join, sort key or assignment. -/
theorem ofJson?_toJson :
    (∀ q : Query, (∀ v ∈ q.values, v.isFinite = true) →
      ∀ j : Json, j.Reordered q.toJson → Query.ofJson? j = some q)
    ∧ (∀ e : Expr, (∀ v ∈ e.values, v.isFinite = true) →
      ∀ j : Json, j.Reordered e.toJson → Expr.ofJson? j = some e)
    ∧ (∀ v : Value, v.isFinite = true →
      ∀ j : Json, j.Reordered v.tagged → Value.ofTagged? j = some v)
    ∧ (∀ p : Path, ∀ j : Json, j.Reordered p.toJson → Path.ofJson? j = some p)
    ∧ (∀ e : Entity, ∀ j : Json, j.Reordered e.toJson → Entity.ofJson? j = some e)
    ∧ (∀ join : Join, (∀ v ∈ join.values, v.isFinite = true) →
      ∀ j : Json, j.Reordered join.toJson → Join.ofJson? j = some join)
    ∧ (∀ k : SortKey, (∀ v ∈ k.key.values, v.isFinite = true) →
      ∀ j : Json, j.Reordered k.toJson → SortKey.ofJson? j = some k)
    ∧ (∀ a : Assignment, (∀ v ∈ a.value.values, v.isFinite = true) →
      ∀ j : Json, j.Reordered a.toJson → Assignment.ofJson? j = some a) := by
  refine ⟨fun q h => Query.reads fun e he => ?_, fun e h => Expr.isRead h,
    fun v h => Value.reads_tagged h, Path.reads, Entity.reads,
    fun join h => Join.reads fun e he => ?_, fun k h => SortKey.reads (Expr.isRead h),
    fun a h => Assignment.reads (Expr.isRead h)⟩
  · -- the expressions in the clauses are nodes
    refine Query.isRead_nodes h e ?_
    rw [q.nodes_eq]
    exact List.mem_flatMap.2 ⟨e, he, e.self_mem_nodes⟩
  · exact Expr.isRead fun v hv => h v (List.mem_flatMap.2 ⟨e, he, hv⟩)

/-- The condition on books that are discarded: a parameter that brings `null`, a character that
escapes, and a negative zero. -/
def discardCondition : Expr := .logical .and [
  .like (.path ⟨["b", "title"]⟩) (.parameter "pattern" (some .null)) (some '!') true,
  .comparison .lte (.path ⟨["b", "score"]⟩) (.literal (.float (.zero true)))]

/-- The query that discards them. -/
def discardedBooks : Query := .delete { entity := ⟨"Book", "b"⟩, filter := some discardCondition }

/-- The JSON form of the query with the condition in front of the entity. -/
def discardedForm : Json := .object [("delete", .object [("where", discardCondition.toJson),
  ("entity", Entity.toJson ⟨"Book", "b"⟩)])]

theorem discardedForm_reordered : discardedForm.Reordered discardedBooks.toJson :=
  .single (.of_perm (.swap _ _ _) (by simp))

/-- The query is read back from fields in another order: the parameter still brings `null`, and the
zero is still negative. -/
theorem ofJson?_discardedForm :
    (∀ v ∈ discardedBooks.values, v.isFinite = true)
      ∧ discardedForm.Reordered discardedBooks.toJson
      ∧ Query.ofJson? discardedForm = some discardedBooks := by
  have hfinite : ∀ v ∈ discardedBooks.values, v.isFinite = true := by decide
  exact ⟨hfinite, discardedForm_reordered,
    ofJson?_toJson.1 discardedBooks hfinite discardedForm discardedForm_reordered⟩

end PersistenceQuery
