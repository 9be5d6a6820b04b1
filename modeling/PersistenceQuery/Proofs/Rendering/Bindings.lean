import PersistenceQuery.Proofs.Binding.Pass
import PersistenceQuery.Proofs.Rendering.Emitted
import PersistenceQuery.Proofs.Rendering.Standard
import PersistenceQuery.Rendering.Rendered

/-!
# The bindings of a rendered query

The emissions of a query make the requests that its expressions make, in the order of its nodes;
so the binder ends where one pass over the nodes ends, whatever the text looks like.

## Main results

* `Written.requests_eq` — a layout makes the requests of the expressions it writes.
* `Query.bindings_eq_pass` — the bindings of a rendered query are those of one pass.
-/

namespace PersistenceQuery

/-! ### Requests of a layout -/

/-- An expression that is not bound to a value makes no request. -/
theorem Expr.request?_eq_none {e : Expr} (h : e.isBinding = false) : e.request? = none := by
  cases e with
  | literal v => cases h
  | parameter name embedded => cases h
  | _ => rfl

/-- A layout that nothing stops makes the requests of the expressions it writes. -/
theorem Written.requests_eq {P : String → Prop} {es : List Emission} {ns : List Expr}
    (h : Written P es ns) (hstop : ∀ fault, Emission.stop fault ∉ es) :
    es.filterMap Emission.request? = ns.filterMap Expr.request? := by
  induction h with
  | stop fault ns => exact absurd List.mem_cons_self (hstop fault)
  | inside e he _ ih => rw [List.filterMap_cons_none (Expr.request?_eq_none he), ih hstop]
  | parenthesized _ ih =>
    have hinner := ih fun fault hmem =>
      hstop fault (List.mem_cons_of_mem _ (List.mem_append_left _ hmem))
    simpa [Emission.parenthesized, Emission.request?, List.filterMap_cons] using hinner
  | minus _ ih =>
    have hinner := ih fun fault hmem => hstop fault (List.mem_cons_of_mem _ hmem)
    simpa [Emission.request?, List.filterMap_cons] using hinner
  | applied _ _ ih =>
    have hinner := ih fun fault hmem => hstop fault
      (List.mem_cons_of_mem _ (List.mem_cons_of_mem _ (List.mem_append_left _ hmem)))
    simpa [Emission.parenthesized, Emission.request?, List.filterMap_cons] using hinner
  | spaced _ _ iha ihb =>
    have has := iha fun fault hmem => hstop fault (List.mem_append_left _ hmem)
    have hbs := ihb fun fault hmem =>
      hstop fault (List.mem_append_right _ (List.mem_cons_of_mem _ hmem))
    simp [List.filterMap_append, List.filterMap_cons, Emission.request?, has, hbs]
  | separated _ _ _ iha ihb =>
    have has := iha fun fault hmem => hstop fault (List.mem_append_left _ hmem)
    have hbs := ihb fun fault hmem =>
      hstop fault (List.mem_append_right _ (List.mem_cons_of_mem _ hmem))
    simp [List.filterMap_append, List.filterMap_cons, Emission.request?, has, hbs]
  | _ => rfl

/-! ### Results and the standard dialect -/

theorem exists_of_isOk {ε α : Type} {x : Except ε α} (h : x.isOk = true) : ∃ a, x = .ok a := by
  cases x with
  | error e => cases h
  | ok a => exact ⟨a, rfl⟩

/-! ### The bindings of a query -/

theorem Binder.foldl_reserve (names : List String) (b : Binder) :
    names.foldl Binder.reserve b = { b with reserved := names.reverse ++ b.reserved } := by
  induction names generalizing b with
  | nil => rfl
  | cons name names ih => simp [ih, Binder.reserve]

@[simp] theorem Query.mode_binder (q : Query) (supplied : Option Bindings) (mode : Mode) :
    (q.binder supplied mode).mode = mode := by
  rw [Query.binder, Binder.foldl_reserve]
  rfl

@[simp] theorem Query.supplied_binder (q : Query) (supplied : Option Bindings) (mode : Mode) :
    (q.binder supplied mode).supplied = supplied := by
  rw [Query.binder, Binder.foldl_reserve]
  rfl

/-- The names that are not generated for the literals of a query: those of the supplied values and
those of all its named parameters. -/
def Query.reservedNames (q : Query) (supplied : Option Bindings) : List String :=
  (supplied.map Bindings.names).getD [] ++ q.parameters.map Prod.fst

/-- One pass over the nodes of a query. -/
def Query.pass (q : Query) (supplied : Option Bindings) (mode : Mode) : Pass :=
  Pass.start.run mode supplied (q.reservedNames supplied) q.nodes

/-- A binder for a query starts where a pass starts. -/
theorem Query.follows_start (q : Query) (supplied : Option Bindings) (mode : Mode) :
    Follows mode supplied (q.reservedNames supplied) (q.binder supplied mode) Pass.start := by
  rw [Query.binder, Binder.foldl_reserve]
  refine ⟨rfl, rfl, ?_, ?_, rfl, ?_⟩
  · intro s
    simp only [Binder.start, Query.reservedNames, List.mem_append, List.mem_reverse]
    exact Or.comm
  · intro n
    simp [Binder.start, Pass.start, Nat.succ_le_iff]
  · intro n _ hbound
    cases hbound

theorem Query.mem_parameters {q : Query} {name : String} {embedded : Option Value}
    (h : Expr.parameter name embedded ∈ q.nodes) : name ∈ q.parameters.map Prod.fst :=
  List.mem_map.2 ⟨(name, embedded), List.mem_filterMap.2 ⟨_, h, rfl⟩, rfl⟩

/-- The bindings of a rendered query are, with their names and in their order, those that one pass
over its nodes collects.  Every literal that is not written inline is bound once, under a name of
its own that no supplied value and no named parameter has. -/
theorem Query.bindings_eq_pass {q : Query} {supplied : Option Bindings} {mode : Mode}
    {r : Rendered} (h : q.render .standard supplied mode = .ok r) :
    r.bindings.entries = (q.pass supplied mode).entries
      ∧ (q.pass supplied mode).generated.length = (Pass.boundLiterals mode q.nodes).length
      ∧ (q.pass supplied mode).generated.Pairwise (· < ·)
      ∧ (∀ n ∈ (q.pass supplied mode).generated, placeholderName n ∉ q.reservedNames supplied)
      ∧ r.bindings.entries.filter (fun e => e.1 ∉ q.parameters.map Prod.fst)
        = ((q.pass supplied mode).generated.map placeholderName).zip
          (Pass.boundLiterals mode q.nodes) := by
  have hwritten : Written (fun _ => True) (Dialect.standard.write q.part) q.nodes :=
    Query.written Dialect.standard_hasWords q fun _ _ => trivial
  obtain ⟨-, -, hr⟩ := Query.render_eq_ok.1 h
  obtain ⟨d, hemit, hfinish⟩ := Binder.rendered_eq_ok.1 hr
  obtain ⟨-, -, -, hbindings⟩ := Draft.finish_eq_ok.1 hfinish
  obtain ⟨hbinder, hstop⟩ := Draft.binder_of_emitAll hemit
  have hnames : ∀ name embedded, Expr.parameter name embedded ∈ q.nodes →
      name ∈ q.parameters.map Prod.fst := fun _ _ => Query.mem_parameters
  have hfollows := (q.follows_start supplied mode).run q.nodes fun name embedded he =>
    List.mem_append_right _ (hnames name embedded he)
  rw [← hwritten.requests_eq hstop] at hfollows
  have hentries : r.bindings.entries = (q.pass supplied mode).entries := by
    rw [hbindings, hbinder]
    exact hfollows.entries_eq
  have hsorted : (q.pass supplied mode).Sorted (q.reservedNames supplied)
      (q.parameters.map Prod.fst) ([] ++ Pass.boundLiterals mode q.nodes) :=
    Pass.sorted_run q.nodes (List.subset_append_right _ _) hnames
      ⟨rfl, List.Pairwise.nil, fun _ hn => absurd hn List.not_mem_nil, rfl⟩
  refine ⟨hentries, hsorted.length_eq, hsorted.increasing, hsorted.free, ?_⟩
  rw [hentries]
  exact hsorted.unnamed_eq

/-- Books of a genre that came out after a year; the parameter has the name that the literal would
be given first. -/
def booksAfter : Query := .select {
  resultType := "Book"
  distinct := false
  items := [.entity ⟨"Book", "b"⟩]
  sources := [⟨⟨"Book", "b"⟩, []⟩]
  filter := some (.logical .and [
    .comparison .gt (.path ⟨["b", "year"]⟩) (.literal (.int 1990)),
    .comparison .eq (.path ⟨["b", "genre"]⟩) (.parameter "param1" (some (.string "novel")))])
  groupBy := []
  having := none
  orderBy := [] }

theorem bindings_booksAfter : ∃ r, booksAfter.render .standard none .placeholder = .ok r
    ∧ r.bindings.entries = [("param2", .int 1990), ("param1", .string "novel")] := by
  obtain ⟨r, hr⟩ := exists_of_isOk
    (x := booksAfter.render .standard none .placeholder) (by decide +kernel)
  have hnext : Pass.nextOrdinal (booksAfter.reservedNames none) [] = 2 :=
    (Nat.find_eq_iff _).2 ⟨by decide +kernel, by decide +kernel⟩
  refine ⟨r, hr, ?_⟩
  rw [(Query.bindings_eq_pass hr).1]
  simp only [Query.pass, Pass.run, Pass.start]
  -- eight nodes: the entity, the conjunction, and two comparisons with their operands
  show Pass.entries (List.foldl _ _ [_, _, _, _, _, _, _, _]) = _
  simp only [List.foldl_cons, List.foldl_nil, Pass.visit, hnext, placeholderName]
  decide +kernel

end PersistenceQuery
