import PersistenceQuery.Proofs.Query.Checked
import PersistenceQuery.Proofs.Rendering.Spelled

/-!
# Placeholders and bindings

Whoever reads a rendered query finds the names that are bound in it, in their order: each token
brings the placeholder that the binder has bound for it, and nothing else looks like one.

## Main results

* `Binder.placeholders_token`, `Binder.placeholders_spelled` — one token, and a sequence of them,
  against the bindings.
* `Query.eraseDups_placeholders` — the placeholders in the text of a query are its bindings.
-/

namespace PersistenceQuery

/-! ### Tokens and bindings -/

theorem eraseDups_append_singleton (names : List String) (s : String) :
    (names ++ [s]).eraseDups
      = if s ∈ names.eraseDups then names.eraseDups else names.eraseDups ++ [s] := by
  rw [List.eraseDups_append]
  by_cases h : s ∈ names
  · simp [List.mem_eraseDups, h, List.removeAll]
  · simp [List.mem_eraseDups, h, List.removeAll, List.eraseDups_cons]

/-- Binding a name that has been seen changes nothing; a new name goes to the end. -/
theorem eraseDups_names_set {names : List String} {bound : Bindings} (s : String) (v : Value)
    (h : names.eraseDups = bound.names) : (names ++ [s]).eraseDups = (bound.set s v).names := by
  rw [eraseDups_append_singleton, h, Bindings.names_set]

theorem placeholders_placeholder {s : String} (h : isParameterName s = true) :
    placeholders (placeholder s) = [s] := by
  rw [placeholders, lexemes, (read_placeholder h).2]
  simp [Lexeme.placeholder?, h]

theorem placeholders_eq_nil {s : String} (h : Quiet s.toList) : placeholders s = [] :=
  h.placeholders_eq

namespace Binder

/-- The token of one emission brings the placeholder that its request binds. -/
theorem placeholders_token {b : Binder} {names : List String} {e : Emission} (hplain : e.IsPlain)
    (hname : ∀ s v, e = .parameter s v → isParameterName s = true)
    (hseen : names.eraseDups = b.bound.names) :
    (names ++ placeholders (e.token b)).eraseDups
      = (b.after e.request?.toList).bound.names := by
  have hnone : ∀ {s : String}, Quiet s.toList →
      (names ++ placeholders s).eraseDups = b.bound.names := fun hs => by
    rw [placeholders_eq_nil hs, List.append_nil, hseen]
  cases e with
  | word w => exact hnone (.of_plain hplain)
  | name s => exact hnone (.of_plain hplain)
  | quoted s => exact hnone (.quote s)
  | space => exact hnone (.of_plain rfl)
  | opening => exact hnone (.of_plain (by rw [Emission.token_opening]; decide))
  | closing => exact hnone (.of_plain (by rw [Emission.token_closing]; decide))
  | stop fault => exact hnone (.of_plain rfl)
  | value v =>
    simp only [Emission.token, Emission.request?, Option.toList_some, after, List.foldl_cons,
      List.foldl_nil, handle]
    rcases hr : b.register v with ⟨fault | token, b'⟩
    · rw [register_eq_of_error hr]
      exact hnone (.of_plain rfl)
    · rcases register_eq_ok hr with ⟨-, hliteral, rfl⟩ | ⟨-, rfl, rfl⟩
      · exact hnone (Value.quiet_literal hliteral hplain)
      · show (names ++ placeholders (placeholder _)).eraseDups = _
        rw [placeholders_placeholder (isParameterName_placeholderName _)]
        exact eraseDups_names_set _ v hseen
  | parameter s v =>
    simp only [Emission.token, Emission.request?, Option.toList_some, after, List.foldl_cons,
      List.foldl_nil, handle, bind]
    cases b.valueFor s v with
    | none => exact hnone (.of_plain rfl)
    | some value =>
      show (names ++ placeholders (placeholder s)).eraseDups = _
      rw [placeholders_placeholder (hname s v rfl), eraseDups_append_singleton, hseen]
      by_cases hold : s ∈ b.bound.names
      · simp [hold, Bindings.contains_iff.2 hold]
      · have hnew : ¬ b.bound.contains s = true := fun h => hold (Bindings.contains_iff.1 h)
        simp [hold, hnew, Bindings.names_set]

/-- The tokens of emissions bring the placeholders that their requests bind, in order. -/
theorem placeholders_spelled {es : List Emission} {b : Binder} {names : List String}
    (hplain : ∀ e ∈ es, e.IsPlain)
    (hnames : ∀ s v, Emission.parameter s v ∈ es → isParameterName s = true)
    (hseen : names.eraseDups = b.bound.names) :
    (names ++ (b.spelled es).filterMap Lexeme.placeholder?).eraseDups
      = (b.after (es.filterMap Emission.request?)).bound.names := by
  induction es generalizing b names with
  | nil => simpa [spelled, after] using hseen
  | cons e es ih =>
    have htoken := placeholders_token (hplain e List.mem_cons_self)
      (fun s v heq => hnames s v (heq ▸ List.mem_cons_self)) hseen
    have hrest := ih (fun f hf => hplain f (List.mem_cons_of_mem _ hf))
      (fun s v hs => hnames s v (List.mem_cons_of_mem _ hs)) htoken
    rw [spelled, List.filterMap_append, ← List.append_assoc]
    rw [placeholders] at hrest
    rw [hrest]
    cases hr : e.request? <;> simp [after, hr]

end Binder

/-! ### Rendered queries -/

/-- The placeholders in the text of a rendered query, each where it occurs first, are the names of
its bindings in their order.  Its names may be any that hold neither quotes nor colons; literals
may hold both. -/
theorem Query.eraseDups_placeholders {q : Query} {supplied : Option Bindings} {mode : Mode}
    {r : Rendered} (hnames : ∀ s ∈ q.names, isPlain s = true)
    (h : q.render .standard supplied mode = .ok r) :
    (placeholders r.text).eraseDups = r.bindings.names := by
  have hwritten := Query.written Dialect.standard_hasWords q hnames
  obtain ⟨hshape, -, hr⟩ := Query.render_eq_ok.1 h
  have hnodes : ∀ s v, Expr.parameter s v ∈ q.nodes → isParameterName s = true :=
    fun s v hs => Query.isParameterName_of_checkShape hshape hs
  obtain ⟨d, hemit, hfinish⟩ := Binder.rendered_eq_ok.1 hr
  obtain ⟨-, -, -, hbindings⟩ := Draft.finish_eq_ok.1 hfinish
  obtain ⟨hbinder, hstop⟩ := Draft.binder_of_emitAll hemit
  have hempty : (q.binder supplied mode).bound.names = [] := by
    rw [Query.binder, Binder.foldl_reserve]
    rfl
  have hseen : ([] : List String).eraseDups = (q.binder supplied mode).bound.names := by
    rw [hempty]
    rfl
  have hspelled := Binder.placeholders_spelled hwritten.isPlain_of_mem
    (fun s v hs => hnodes s v (hwritten.mem_of_parameter hs)) hseen
  rw [placeholders, Binder.lexemes_rendered hr hwritten hnodes, hbindings, hbinder]
  exact hspelled

/-- The genre of a book is compared with a text that looks like a placeholder. -/
def booksOfGenre : Query := .select {
  resultType := "Book"
  distinct := false
  items := [.entity ⟨"Book", "b"⟩]
  sources := [⟨⟨"Book", "b"⟩, []⟩]
  filter := some (.logical .or [
    .comparison .eq (.path ⟨["b", "genre"]⟩) (.literal (.string "it's :none")),
    .comparison .eq (.path ⟨["b", "genre"]⟩) (.parameter "genre" none),
    .comparison .eq (.path ⟨["b", "mood"]⟩) (.parameter "genre" none)])
  groupBy := []
  having := none
  orderBy := [] }

theorem placeholders_booksOfGenre :
    (∀ s ∈ booksOfGenre.names, isPlain s = true)
      ∧ ∃ r, booksOfGenre.render .standard (some (.ofList [("genre", .string "novel")])) .inline
          = .ok r
        ∧ (placeholders r.text).eraseDups = r.bindings.names := by
  have hnames : ∀ s ∈ booksOfGenre.names, isPlain s = true := by decide +kernel
  obtain ⟨r, hr⟩ := exists_of_isOk (x := booksOfGenre.render .standard
    (some (.ofList [("genre", .string "novel")])) .inline) (by decide +kernel)
  exact ⟨hnames, r, hr, Query.eraseDups_placeholders hnames hr⟩

end PersistenceQuery
