import PersistenceQuery.Rendering.Rendered

/-!
# What the checks of a query find

The two checks in front of the writing, as statements about the nodes of the query: every
expression keeps its own rules, and every named parameter has a value.

## Main definitions

* `Expr.unbound?` — the name of a parameter without a value.

## Main results

* `Query.checkShape_eq_ok` — a query keeps the rules if its root and its expressions do.
* `Query.isParameterName_of_checkShape` — parameters of a query that keeps the rules have proper
  names.
* `Query.checkBindings_eq` — the parameter that is reported is the first one without a value.
-/

namespace PersistenceQuery

/-! ### Rules -/

/-- A check of a list succeeds if it does for each of its members. -/
theorem forM_eq_ok {α ε : Type} {f : α → Except ε Unit} {xs : List α} :
    xs.forM f = .ok () ↔ ∀ x ∈ xs, f x = .ok () := by
  induction xs with
  | nil => exact ⟨fun _ x hx => absurd hx List.not_mem_nil, fun _ => rfl⟩
  | cons x xs ih =>
    rw [List.forM_eq_forM, List.forM_cons, List.forall_mem_cons, ← ih]
    cases hx : f x with
    | error e => exact ⟨nofun, fun h => nomatch h.1⟩
    | ok u => exact ⟨fun h => ⟨rfl, h⟩, fun h => h.2⟩

/-- A check of a list depends on what it gives for its members only. -/
theorem forM_eq_forM_map {α ε : Type} (f : α → Except ε Unit) (xs : List α) :
    xs.forM f = (xs.map f).forM id := by
  rw [List.forM_eq_forM, List.forM_eq_forM, List.forM_map]
  rfl

theorem Query.checkShape_eq_ok {q : Query} :
    q.checkShape = .ok () ↔ q.checkRoot = .ok () ∧ ∀ e ∈ q.nodes, e.checkShape = .ok () := by
  rw [Query.checkShape, ← forM_eq_ok]
  cases q.checkRoot with
  | error cause => exact ⟨nofun, fun h => nomatch h.1⟩
  | ok u => exact ⟨fun h => ⟨rfl, h⟩, fun h => h.2⟩

theorem Expr.isParameterName_of_checkShape {s : String} {v : Option Value}
    (h : (Expr.parameter s v).checkShape = .ok ()) : isParameterName s = true := by
  rw [Expr.checkShape] at h
  split at h
  · next hname => exact hname
  · cases h

/-- The named parameters of a query that keeps the rules have proper names. -/
theorem Query.isParameterName_of_checkShape {q : Query} (h : q.checkShape = .ok ()) {s : String}
    {v : Option Value} (hs : Expr.parameter s v ∈ q.nodes) : isParameterName s = true :=
  Expr.isParameterName_of_checkShape ((Query.checkShape_eq_ok.1 h).2 _ hs)

/-- The members of a query that keeps the rules are to be found in lists that are not empty. -/
theorem Query.members_ne_nil_of_checkShape {q : Query} (h : q.checkShape = .ok ()) {v : Expr}
    {es : List Expr} {negated : Bool} (hs : Expr.inList v es negated ∈ q.nodes) : es ≠ [] := by
  have hcheck := (Query.checkShape_eq_ok.1 h).2 _ hs
  rintro rfl
  cases hcheck

/-! ### Parameters -/

/-- The name of a parameter that brings no value and is not supplied with one. -/
def Expr.unbound? (supplied : Option Bindings) : Expr → Option String
  | .parameter name none =>
    if name ∈ (supplied.map Bindings.names).getD [] then none else some name
  | _ => none

theorem Bindings.isSome_get? (b : Bindings) (name : String) :
    (b.get? name).isSome = true ↔ name ∈ b.names := by
  rw [get?, names]
  induction b.entries with
  | nil => simp
  | cons e entries ih =>
    obtain ⟨n, v⟩ := e
    rw [Keyed.lookup_cons, List.map_cons, List.mem_cons]
    by_cases h : name = n <;> simp [h, ih]

/-- The first parameter without a value, looked for among the nodes. -/
theorem Query.checkBindings_eq (q : Query) (supplied : Option Bindings) :
    q.checkBindings supplied
      = match q.nodes.findSome? (Expr.unbound? supplied) with
        | some name => .error (.missingBinding name)
        | none => .ok () := by
  have hnodes : ∀ ns : List Expr,
      ((ns.filterMap Expr.parameter?).find? (!isBound supplied ·)).map Prod.fst
        = ns.findSome? (Expr.unbound? supplied) := by
    intro ns
    induction ns with
    | nil => rfl
    | cons e ns ih =>
      cases e with
      | parameter name v =>
        have hname : (Expr.parameter name v).parameter? = some (name, v) := rfl
        rw [List.filterMap_cons_some hname, List.find?_cons, List.findSome?_cons]
        cases v with
        | some v => simpa [isBound, Expr.unbound?] using ih
        | none =>
          cases supplied with
          | none => simp [isBound, Expr.unbound?]
          | some b =>
            by_cases hmem : name ∈ b.names
            · simpa [isBound, Expr.unbound?, Bindings.contains, hmem] using ih
            · simp [isBound, Expr.unbound?, Bindings.contains, hmem]
      | _ => exact ih
  rw [Query.checkBindings, Query.parameters, ← hnodes]
  cases (q.nodes.filterMap Expr.parameter?).find? (!isBound supplied ·) <;> rfl

/-- Where no parameter is reported, every parameter has a value. -/
theorem Query.isSome_value_of_unbound? {q : Query} {supplied : Option Bindings}
    (h : q.nodes.findSome? (Expr.unbound? supplied) = none) {s : String} {v : Option Value}
    (hs : Expr.parameter s v ∈ q.nodes) :
    ((supplied.bind (·.get? s)).or v).isSome = true := by
  have hbound := List.findSome?_eq_none_iff.1 h _ hs
  cases v with
  | some v => cases supplied.bind (·.get? s) <;> rfl
  | none =>
    cases supplied with
    | none => simp [Expr.unbound?] at hbound
    | some b => simpa [Expr.unbound?, Bindings.isSome_get?] using hbound

end PersistenceQuery
