import PersistenceQuery.Proofs.Rendering.Outcome
import PersistenceQuery.Proofs.Rendering.Twins

/-!
# Supplied values that are not used

Of the values that a caller supplies for parameters, a rendering looks at those whose names occur
in the query, and at the names that could be generated.  Everything else that is supplied, and the
order in which it is, makes no difference.

## Main results

* `Query.twins_supplied` — binders for supplied values that agree where it matters.
* `Query.render_supplied` — values that agree there give the same result.
-/

namespace PersistenceQuery

section
variable {q : Query} {s t : Bindings}

/-- A parameter of the query has a value in both cases, or in neither. -/
theorem Query.checkBindings_supplied
    (hvalues : ∀ name ∈ q.parameters.map Prod.fst, s.get? name = t.get? name) :
    q.checkBindings (some s) = q.checkBindings (some t) := by
  have hunbound : ∀ e ∈ q.nodes, e.unbound? (some s) = e.unbound? (some t) := by
    intro e he
    cases e with
    | parameter name v =>
      have hget := hvalues name (Query.mem_parameters he)
      have hmem : name ∈ s.names ↔ name ∈ t.names := by
        rw [← Bindings.isSome_get?, ← Bindings.isSome_get?, hget]
      cases v with
      | none => simp only [Expr.unbound?, Option.map_some, Option.getD_some, hmem]
      | some v => rfl
    | _ => rfl
  rw [Query.checkBindings_eq, Query.checkBindings_eq, findSome?_congr hunbound]

/-- Binders for supplied values that agree on the parameters of the query and on the names that
could be generated. -/
theorem Query.twins_supplied
    (hvalues : ∀ name ∈ q.parameters.map Prod.fst, s.get? name = t.get? name)
    (hnames : ∀ n, 0 < n → (placeholderName n ∈ s.names ↔ placeholderName n ∈ t.names))
    (mode : Mode) :
    Binder.Twins id {name | name ∈ q.parameters.map Prod.fst} (q.binder (some s) mode)
      (q.binder (some t) mode) := by
  rw [Query.binder, Query.binder, Binder.foldl_reserve, Binder.foldl_reserve]
  refine ⟨rfl, rfl, Nat.one_pos, fun n hn => ?_, fun name hname => ?_, rfl, fun _ => rfl⟩
  · rw [List.mem_append, List.mem_append]
    exact or_congr_right (hnames n hn).symm
  · funext embedded
    show (t.get? name).or embedded = (s.get? name).or embedded
    rw [hvalues name hname]

end

theorem Rendered.eq_of_seen {x y : Except Fault Rendered}
    (h : x.map (Rendered.seen id) = y.map (Rendered.seen id)) : x = y := by
  cases x with
  | error f =>
    cases y with
    | error g =>
      cases h
      rfl
    | ok r => cases h
  | ok r =>
    cases y with
    | error g => cases h
    | ok r' =>
      obtain ⟨htext, hentries⟩ := Prod.mk.inj (Except.ok.inj h)
      rw [Prod.map_id, List.map_id, List.map_id] at hentries
      obtain ⟨text, ⟨entries, hnodup⟩⟩ := r
      obtain ⟨text', ⟨entries', hnodup'⟩⟩ := r'
      cases htext
      cases hentries
      rfl

/-- Values that are supplied for other parameters than those of the query, and the order in which
they are supplied, make no difference; only names that could be generated do. -/
theorem Query.render_supplied {q : Query} {s t : Bindings}
    (hvalues : ∀ name ∈ q.parameters.map Prod.fst, s.get? name = t.get? name)
    (hnames : ∀ n, 0 < n → (placeholderName n ∈ s.names ↔ placeholderName n ∈ t.names))
    (mode : Mode) :
    q.render .standard (some s) mode = q.render .standard (some t) mode := by
  have hwritten : Written (fun _ => True) (Dialect.standard.write q.part) q.nodes :=
    Query.written Dialect.standard_hasWords q fun _ _ => trivial
  have hrendered := (Query.twins_supplied hvalues hnames mode).rendered rfl fun name embedded hp =>
    Query.mem_parameters (hwritten.mem_of_parameter hp)
  rw [Query.render, Query.render, Query.checkBindings_supplied hvalues,
    Rendered.eq_of_seen hrendered]

/-- Books of a genre that came out after a year, but for one of them. -/
def otherBooks : Query := .select {
  resultType := "Book"
  distinct := false
  items := [.entity ⟨"Book", "b"⟩]
  sources := [⟨⟨"Book", "b"⟩, []⟩]
  filter := some (.logical .and [
    .comparison .gt (.path ⟨["b", "year"]⟩) (.literal (.int 1990)),
    .comparison .eq (.path ⟨["b", "genre"]⟩) (.parameter "genre" none),
    .comparison .ne (.path ⟨["b", "title"]⟩) (.parameter "title" (some (.string "Emma")))])
  groupBy := []
  having := none
  orderBy := [] }

theorem render_otherBooks :
    let s := Bindings.ofList [("genre", .string "novel"), ("param1", .int 7), ("year", .int 3)]
    let t := Bindings.ofList [("param0", .null), ("param1", .null), ("genre", .string "novel")]
    (∀ name ∈ otherBooks.parameters.map Prod.fst, s.get? name = t.get? name)
      ∧ (∀ n, 0 < n → (placeholderName n ∈ s.names ↔ placeholderName n ∈ t.names))
      ∧ otherBooks.render .standard (some s) .placeholder
        = otherBooks.render .standard (some t) .placeholder := by
  intro s t
  have hvalues : ∀ name ∈ otherBooks.parameters.map Prod.fst, s.get? name = t.get? name := by
    decide +kernel
  have hs : s.names = ["genre", "param1", "year"] := by decide +kernel
  have ht : t.names = ["param0", "param1", "genre"] := by decide +kernel
  have hother : ∀ n name, name.toList.head? ≠ some 'p' → placeholderName n ≠ name := by
    rintro n name hname rfl
    exact hname (by simp [placeholderName])
  have hnames : ∀ n, 0 < n → (placeholderName n ∈ s.names ↔ placeholderName n ∈ t.names) := by
    intro n hn
    have hzero : placeholderName n ≠ "param0" := fun h =>
      have hparam : placeholderName n = placeholderName 0 := h
      hn.ne' (placeholderName_injective hparam)
    have hgenre := hother n "genre" (by decide)
    have hyear := hother n "year" (by decide)
    simp [hs, ht, hzero, hgenre, hyear]
  exact ⟨hvalues, hnames, Query.render_supplied hvalues hnames .placeholder⟩

end PersistenceQuery
