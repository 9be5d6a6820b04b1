import PersistenceQuery.Proofs.Query.Path
import PersistenceQuery.Proofs.Query.Rules
import PersistenceQuery.Proofs.Query.Tour

/-!
# The joins of a query

The joins on the tour of a query are those of the selecting queries in it, at any depth.  What a
join brings in has a name and a label if the query keeps the rules, with one exception: the path to
an association is asked to have no empty segment, and that does not keep it from having none at all.

## Main definitions

* `Path.IsUsable` — the text of the path and all its parts between points are not empty.
* `JoinTarget.text`, `JoinTarget.label` — what is joined, and the label it goes by.
* `Query.joins` — the joins in the order in which they come up.

## Main results

* `Path.isUsable_iff` — which lists of segments give a usable path.
* `Join.KeepsRules.text_eq_empty_iff` — a join that keeps the rules brings in an empty text exactly
  where its path has no segments.
* `Query.mem_joins_iff` — the joins of a query are those of the selecting queries in it.
* `Query.KeepsRules.join` — they keep the rules if the query does.
-/

namespace PersistenceQuery

/-! ### Paths -/

namespace Path

/-- The text of the path is not empty, and no part of it between points is. -/
def IsUsable (p : Path) : Prop := p.text ≠ "" ∧ ∀ part ∈ cut p.text.toList, part ≠ []

/-- A path is usable if it has segments, and none of them has an empty part. -/
theorem isUsable_iff {p : Path} :
    p.IsUsable ↔ p.segments ≠ [] ∧ ∀ s ∈ p.segments, ∀ part ∈ cut s.toList, part ≠ [] := by
  have htext : p.text.toList = joined (p.segments.map String.toList) := String.toList_ofList
  constructor
  · rintro ⟨hne, hparts⟩
    have hsegments : p.segments ≠ [] := fun hnil => hne (by rw [text, hnil]; rfl)
    refine ⟨hsegments, fun s hs part hpart => hparts part ?_⟩
    rw [htext, cut_joined_of_ne_nil (by simpa using hsegments)]
    exact List.mem_flatMap.2 ⟨s.toList, List.mem_map_of_mem hs, hpart⟩
  · rintro ⟨hsegments, hparts⟩
    have hcut : ∀ part ∈ cut p.text.toList, part ≠ [] := by
      rw [htext, cut_joined_of_ne_nil (by simpa using hsegments)]
      intro part hpart
      obtain ⟨cs, hcs, hpart⟩ := List.mem_flatMap.1 hpart
      obtain ⟨s, hs, rfl⟩ := List.mem_map.1 hcs
      exact hparts s hs part hpart
    -- the empty text has an empty part
    refine ⟨fun hempty => hcut [] ?_ rfl, hcut⟩
    rw [hempty]
    exact List.mem_singleton_self _

/-- A path without empty segments has an empty text only if it has no segments. -/
theorem text_eq_empty_iff {p : Path} (h : ∀ s ∈ p.segments, s ≠ "") :
    p.text = "" ↔ p.segments = [] := by
  constructor
  · intro hempty
    rw [text, String.ofList_eq_empty_iff] at hempty
    cases hp : p.segments with
    | nil => rfl
    | cons s ss =>
      have hs : s ≠ "" := h s (by rw [hp]; exact List.mem_cons_self)
      rw [hp] at hempty
      cases ss with
      | nil => exact absurd (String.toList_eq_nil_iff.1 hempty) hs
      | cons t ss => simp [joined] at hempty
  · intro hnil
    rw [text, hnil]
    rfl

end Path

/-! ### What is joined -/

/-- The text in front of the label: the name of an entity, or the path to an association. -/
def JoinTarget.text : JoinTarget → String
  | .entity e => e.name
  | .association path _ => path.text

/-- The label that what is joined goes by. -/
def JoinTarget.label : JoinTarget → String
  | .entity e => e.label
  | .association _ label => label

/-- Where a join keeps the rules, there is no text in front of the label only if an association is
joined by a path without segments. -/
theorem Join.KeepsRules.text_eq_empty_iff {j : Join} (h : j.KeepsRules) :
    j.target.text = "" ↔ ∃ label, j.target = .association ⟨[]⟩ label := by
  obtain ⟨kind, fetch, target, condition⟩ := j
  cases target with
  | entity e => exact iff_of_false h.1.name nofun
  | association path label =>
    obtain ⟨segments⟩ := path
    refine (Path.text_eq_empty_iff h.1).trans ⟨?_, ?_⟩
    · rintro rfl
      exact ⟨label, rfl⟩
    · rintro ⟨label', heq⟩
      cases heq
      rfl

/-! ### Joins on a tour -/

/-- The joins of a `FROM` clause. -/
def Select.ownJoins (q : Select) : List Join := q.sources.flatMap Source.joins

/-- The joins of the subquery that an expression makes. -/
def Expr.ownJoins : Expr → List Join
  | .subquery q | .exists q _ | .inSubquery _ q _ => q.ownJoins
  | _ => []

/-- The join that a visit enters. -/
def Visit.join? : Visit → Option Join
  | enter (.join j) => some j
  | _ => none

/-- The joins that visits enter. -/
def joinsOf (vs : List Visit) : List Join := vs.filterMap Visit.join?

/-- The joins of a query, those of its subqueries included. -/
def Query.joins (q : Query) : List Join := joinsOf q.tour

@[simp] theorem joinsOf_nil : joinsOf [] = [] := rfl

@[simp] theorem joinsOf_append (vs us : List Visit) :
    joinsOf (vs ++ us) = joinsOf vs ++ joinsOf us := List.filterMap_append

@[simp] theorem joinsOf_around_join (j : Join) (inner : List Visit) :
    joinsOf (around (.join j) inner) = j :: joinsOf inner := by
  simp [joinsOf, around, Visit.join?]

/-- A part that is no join adds only the joins inside it. -/
theorem joinsOf_around {p : Part} (h : (Visit.enter p).join? = none) (inner : List Visit) :
    joinsOf (around p inner) = joinsOf inner := by
  simp [joinsOf, around, List.filterMap_cons_none h, Visit.join?]

@[simp] theorem joinsOf_around_expr (e : Expr) (inner : List Visit) :
    joinsOf (around (.expr e) inner) = joinsOf inner := joinsOf_around rfl inner

@[simp] theorem joinsOf_stopover_expr (e : Expr) : joinsOf (stopover (.expr e)) = [] := rfl

@[simp] theorem joinsOf_stopover_entity (e : Entity) : joinsOf (stopover (.entity e)) = [] := rfl

@[simp] theorem JoinTarget.joinsOf_tour (t : JoinTarget) : joinsOf t.tour = [] := by
  cases t <;> rfl

section
variable {j : Join}

mutual

/-- The joins on the tour of an expression are those of the subqueries among its nodes. -/
theorem Expr.mem_joinsOf_tour : ∀ e : Expr,
    j ∈ joinsOf e.tour ↔ j ∈ e.nodes.flatMap Expr.ownJoins
  | .literal _ | .parameter _ _ | .path _ | .entity _ | .isEmpty _ _ | .current _ => Iff.rfl
  | .aliased v _ | .negate v | .not v | .isNull v _ | .memberOf v _ _ | .unary _ v
  | .aggregate _ _ v => by
    simpa [Expr.tour, Expr.nodes, Expr.ownJoins] using v.mem_joinsOf_tour
  | .arithmetic _ l r | .comparison _ l r | .like l r _ _ | .nullIf l r => by
    simp [Expr.tour, Expr.nodes, Expr.ownJoins, l.mem_joinsOf_tour, r.mem_joinsOf_tour]
  | .choice operand arms otherwise => by
    simp [Expr.tour, Expr.nodes, Expr.ownJoins, mem_joinsOf_tourOfOption operand,
      mem_joinsOf_tourOfArms arms, mem_joinsOf_tourOfOption otherwise]
  | .subquery q | .exists q _ => by
    simpa [Expr.tour, Expr.nodes, Expr.ownJoins] using q.mem_joinsOf_tour
  | .inSubquery v q _ => by
    simp [Expr.tour, Expr.nodes, Expr.ownJoins, v.mem_joinsOf_tour, q.mem_joinsOf_tour,
      or_left_comm]
  | .logical _ es | .variadic _ es | .function _ es | .custom _ es => by
    simpa [Expr.tour, Expr.nodes, Expr.ownJoins] using mem_joinsOf_tourOfList es
  | .between v low high _ => by
    simp [Expr.tour, Expr.nodes, Expr.ownJoins, v.mem_joinsOf_tour, low.mem_joinsOf_tour,
      high.mem_joinsOf_tour]
  | .inList v es _ => by
    simp [Expr.tour, Expr.nodes, Expr.ownJoins, v.mem_joinsOf_tour, mem_joinsOf_tourOfList es]
  | .substring v start length => by
    simp [Expr.tour, Expr.nodes, Expr.ownJoins, v.mem_joinsOf_tour, start.mem_joinsOf_tour,
      mem_joinsOf_tourOfOption length]

theorem mem_joinsOf_tourOfOption : ∀ o : Option Expr,
    j ∈ joinsOf (tourOfOption o) ↔ j ∈ (nodesOfOption o).flatMap Expr.ownJoins
  | none => Iff.rfl
  | some e => e.mem_joinsOf_tour

theorem mem_joinsOf_tourOfList : ∀ es : List Expr,
    j ∈ joinsOf (tourOfList es) ↔ j ∈ (nodesOfList es).flatMap Expr.ownJoins
  | [] => Iff.rfl
  | e :: es => by
    simp [tourOfList, nodesOfList, e.mem_joinsOf_tour, mem_joinsOf_tourOfList es]

theorem mem_joinsOf_tourOfArms : ∀ arms : List Arm,
    j ∈ joinsOf (tourOfArms arms) ↔ j ∈ (nodesOfArms arms).flatMap Expr.ownJoins
  | [] => Iff.rfl
  | ⟨condition, result⟩ :: arms => by
    simp [tourOfArms, nodesOfArms, condition.mem_joinsOf_tour, result.mem_joinsOf_tour,
      mem_joinsOf_tourOfArms arms]

theorem Select.mem_joinsOf_tour : ∀ q : Select,
    j ∈ joinsOf q.tour ↔ j ∈ q.ownJoins ∨ j ∈ q.nodes.flatMap Expr.ownJoins
  | ⟨_, _, items, sources, filter, groupBy, having, orderBy⟩ => by
    rw [Select.tour, joinsOf_around rfl]
    simp [Select.nodes, Select.ownJoins, mem_joinsOf_tourOfList items,
      mem_joinsOf_tourOfSources sources, mem_joinsOf_tourOfOption filter,
      mem_joinsOf_tourOfList groupBy, mem_joinsOf_tourOfOption having,
      mem_joinsOf_tourOfKeys orderBy, or_assoc, or_left_comm]

theorem mem_joinsOf_tourOfSources : ∀ sources : List Source,
    j ∈ joinsOf (tourOfSources sources)
      ↔ j ∈ sources.flatMap Source.joins ∨ j ∈ (nodesOfSources sources).flatMap Expr.ownJoins
  | [] => by simp [tourOfSources, nodesOfSources]
  | ⟨_, joins⟩ :: sources => by
    simp [tourOfSources, nodesOfSources, mem_joinsOf_tourOfJoins joins,
      mem_joinsOf_tourOfSources sources, or_assoc, or_left_comm]

theorem mem_joinsOf_tourOfJoins : ∀ joins : List Join,
    j ∈ joinsOf (tourOfJoins joins)
      ↔ j ∈ joins ∨ j ∈ (nodesOfJoins joins).flatMap Expr.ownJoins
  | [] => by simp [tourOfJoins, nodesOfJoins]
  | ⟨_, _, target, condition⟩ :: joins => by
    simp [tourOfJoins, nodesOfJoins, mem_joinsOf_tourOfOption condition,
      mem_joinsOf_tourOfJoins joins, or_assoc, or_left_comm]

theorem mem_joinsOf_tourOfKeys : ∀ keys : List SortKey,
    j ∈ joinsOf (tourOfKeys keys) ↔ j ∈ (nodesOfKeys keys).flatMap Expr.ownJoins
  | [] => Iff.rfl
  | ⟨key, order, nulls⟩ :: keys => by
    rw [tourOfKeys, joinsOf_append, joinsOf_around rfl]
    simp [nodesOfKeys, key.mem_joinsOf_tour, mem_joinsOf_tourOfKeys keys]

end

theorem mem_joinsOf_tourOfAssignments (as : List Assignment) :
    j ∈ joinsOf (as.flatMap Assignment.tour)
      ↔ j ∈ (as.flatMap fun a => a.value.nodes).flatMap Expr.ownJoins := by
  induction as with
  | nil => exact Iff.rfl
  | cons a as ih =>
    rw [List.flatMap_cons, joinsOf_append, Assignment.tour, joinsOf_around rfl, List.mem_append, ih,
      a.value.mem_joinsOf_tour, List.flatMap_cons, List.flatMap_append, List.mem_append]

theorem Expr.mem_ownJoins_iff {e : Expr} :
    j ∈ e.ownJoins ↔ ∃ s, e.subquery? = some s ∧ j ∈ s.ownJoins := by
  cases e <;> simp [Expr.ownJoins, Expr.subquery?]

/-- The joins of a query are those of the query itself and of the subqueries among its nodes. -/
theorem Query.mem_joins {q : Query} :
    j ∈ q.joins
      ↔ (∃ s, q.select? = some s ∧ j ∈ s.ownJoins) ∨ j ∈ q.nodes.flatMap Expr.ownJoins := by
  cases q with
  | select q => simp [Query.joins, Query.tour, q.mem_joinsOf_tour, Query.select?, Query.nodes]
  | update q =>
    rw [Query.joins, Query.tour, Update.tour, joinsOf_around rfl]
    simp [mem_joinsOf_tourOfAssignments, mem_joinsOf_tourOfOption, Query.select?,
      Query.nodes, Update.nodes]
  | delete q =>
    rw [Query.joins, Query.tour, Delete.tour, joinsOf_around rfl]
    simp [mem_joinsOf_tourOfOption, Query.select?, Query.nodes, Delete.nodes]

/-- The joins of a query are those of the selecting queries in it, at any depth. -/
theorem Query.mem_joins_iff {q : Query} :
    j ∈ q.joins ↔ ∃ s, q.Selects s ∧ ∃ src ∈ s.sources, j ∈ src.joins := by
  have hown : ∀ s : Select, (∃ src ∈ s.sources, j ∈ src.joins) ↔ j ∈ s.ownJoins := fun s =>
    List.mem_flatMap.symm
  simp only [hown, Query.mem_joins, List.mem_flatMap, Query.mem_nodes_iff, Expr.mem_ownJoins_iff]
  constructor
  · rintro (⟨s, hs, hj⟩ | ⟨e, he, s, hs, hj⟩)
    · exact ⟨s, .root hs, hj⟩
    · exact ⟨s, .inside he hs, hj⟩
  · rintro ⟨s, hs | ⟨he, hs⟩, hj⟩
    · exact .inl ⟨s, hs, hj⟩
    · exact .inr ⟨_, he, s, hs, hj⟩

/-- The joins of a query that keeps the rules keep theirs. -/
theorem Query.KeepsRules.join {q : Query} (h : q.KeepsRules) (hj : j ∈ q.joins) : j.KeepsRules := by
  obtain ⟨s, hs, src, hsrc, hj⟩ := Query.mem_joins_iff.1 hj
  exact (h.selects s hs).joins src hsrc j hj

end

end PersistenceQuery
