import PersistenceQuery.Query.Nodes

/-!
# Induction on the nodes of a query

The expressions of a query are all its nodes, and the expressions inside an expression are nodes
behind it.  What an expression has whenever all expressions inside it have it, all nodes have; that
is proved here once, with one case for each form, so that facts about nodes need no recursion of
their own.

## Main definitions

* `Inherited` — a property that an expression has if the expressions inside it have it.

## Main results

* `Query.forall_nodes` — an inherited property holds of all nodes.
-/

namespace PersistenceQuery

/-- An expression that satisfies `R` has the property `Q` if all expressions inside it have it. -/
def Inherited (R Q : Expr → Prop) : Prop := ∀ e, R e → (∀ n ∈ e.nodes.tail, Q n) → Q e

/-- Where all expressions of a list satisfy `R`, all of them have the property `Q`. -/
def Reaches (R Q : Expr → Prop) (ns : List Expr) : Prop := (∀ n ∈ ns, R n) → ∀ n ∈ ns, Q n

namespace Reaches

variable {R Q : Expr → Prop}

theorem nil : Reaches R Q [] := fun _ _ hn => absurd hn List.not_mem_nil

theorem append {ms ns : List Expr} (hm : Reaches R Q ms) (hn : Reaches R Q ns) :
    Reaches R Q (ms ++ ns) := by
  intro h
  obtain ⟨h₁, h₂⟩ := List.forall_mem_append.1 h
  exact List.forall_mem_append.2 ⟨hm h₁, hn h₂⟩

/-- An expression with the expressions inside it. -/
theorem node (step : Inherited R Q) {e : Expr} {ns : List Expr} (hnodes : e.nodes = e :: ns)
    (hn : Reaches R Q ns) : Reaches R Q e.nodes := by
  intro h
  rw [hnodes] at h ⊢
  obtain ⟨he, hns⟩ := List.forall_mem_cons.1 h
  have hinner := hn hns
  refine List.forall_mem_cons.2 ⟨step e he ?_, hinner⟩
  rw [hnodes]
  exact hinner

end Reaches

section
variable {R Q : Expr → Prop}

mutual

theorem Expr.reaches (step : Inherited R Q) : ∀ e : Expr, Reaches R Q e.nodes
  | .literal _ | .parameter _ _ | .path _ | .entity _ | .isEmpty _ _ | .current _ =>
    .node step rfl .nil
  | .aliased v _ | .negate v | .not v | .isNull v _ | .memberOf v _ _ | .unary _ v
  | .aggregate _ _ v => .node step rfl (Expr.reaches step v)
  | .arithmetic _ l r | .comparison _ l r | .like l r _ _ | .nullIf l r =>
    .node step rfl (.append (Expr.reaches step l) (Expr.reaches step r))
  | .choice operand arms otherwise =>
    .node step rfl (.append (.append (Expr.reachesOption step operand)
      (Arm.reachesList step arms)) (Expr.reachesOption step otherwise))
  | .subquery q | .exists q _ => .node step rfl (Select.reaches step q)
  | .logical _ es | .variadic _ es | .function _ es | .custom _ es =>
    .node step rfl (Expr.reachesList step es)
  | .between v low high _ =>
    .node step rfl (.append (.append (Expr.reaches step v) (Expr.reaches step low))
      (Expr.reaches step high))
  | .inList v es _ => .node step rfl (.append (Expr.reaches step v) (Expr.reachesList step es))
  | .inSubquery v q _ => .node step rfl (.append (Expr.reaches step v) (Select.reaches step q))
  | .substring v start length =>
    .node step rfl (.append (.append (Expr.reaches step v) (Expr.reaches step start))
      (Expr.reachesOption step length))

theorem Expr.reachesOption (step : Inherited R Q) : ∀ o : Option Expr, Reaches R Q (nodesOfOption o)
  | none => .nil
  | some e => Expr.reaches step e

theorem Expr.reachesList (step : Inherited R Q) : ∀ es : List Expr, Reaches R Q (nodesOfList es)
  | [] => .nil
  | e :: es => .append (Expr.reaches step e) (Expr.reachesList step es)

theorem Arm.reachesList (step : Inherited R Q) : ∀ arms : List Arm, Reaches R Q (nodesOfArms arms)
  | [] => .nil
  | ⟨condition, result⟩ :: arms =>
    .append (.append (Expr.reaches step condition) (Expr.reaches step result))
      (Arm.reachesList step arms)

theorem Select.reaches (step : Inherited R Q) : ∀ q : Select, Reaches R Q q.nodes
  | ⟨_, _, items, sources, filter, groupBy, having, orderBy⟩ =>
    .append (.append (.append (.append (.append (Expr.reachesList step items)
      (Source.reachesList step sources)) (Expr.reachesOption step filter))
      (Expr.reachesList step groupBy)) (Expr.reachesOption step having))
      (SortKey.reachesList step orderBy)

theorem Source.reachesList (step : Inherited R Q) :
    ∀ sources : List Source, Reaches R Q (nodesOfSources sources)
  | [] => .nil
  | ⟨_, joins⟩ :: sources => .append (Join.reachesList step joins) (Source.reachesList step sources)

theorem Join.reachesList (step : Inherited R Q) :
    ∀ joins : List Join, Reaches R Q (nodesOfJoins joins)
  | [] => .nil
  | ⟨_, _, _, condition⟩ :: joins =>
    .append (Expr.reachesOption step condition) (Join.reachesList step joins)

theorem SortKey.reachesList (step : Inherited R Q) :
    ∀ keys : List SortKey, Reaches R Q (nodesOfKeys keys)
  | [] => .nil
  | ⟨key, _, _⟩ :: keys => .append (Expr.reaches step key) (SortKey.reachesList step keys)

end

theorem Assignment.reachesList (step : Inherited R Q) (as : List Assignment) :
    Reaches R Q (as.flatMap fun a => a.value.nodes) := by
  induction as with
  | nil => exact .nil
  | cons a as ih => exact .append (Expr.reaches step a.value) ih

/-- An expression is the first of its nodes. -/
theorem Expr.self_mem_nodes (e : Expr) : e ∈ e.nodes := by
  cases e <;> exact List.mem_cons_self

/-- An inherited property holds of all nodes of a query. -/
theorem Query.forall_nodes (step : Inherited R Q) {q : Query} (h : ∀ n ∈ q.nodes, R n) :
    ∀ n ∈ q.nodes, Q n := by
  cases q with
  | select q => exact Select.reaches step q h
  | update q =>
    have hnodes : Reaches R Q q.nodes :=
      .append (Assignment.reachesList step q.assignments) (Expr.reachesOption step q.filter)
    exact hnodes h
  | delete q => exact Expr.reachesOption step q.filter h

end

end PersistenceQuery
