import PersistenceQuery.Proofs.Rendering.Written

/-!
# The standard dialect

Its calls have words, and every construct is written by the rule that is made for it; a kind can
be left without a rule.

## Main results

* `Dialect.standard_rule?_of_mem` — every rule of the language is found under its kind.
* `Dialect.standard_hasWords` — the keywords of calls are words.
* `Part.write_of_form` — a part that is a construct is written in the one way there is.
* `Dialect.rule?_foldl_without` — what is found after kinds have been left without a rule.
-/

namespace PersistenceQuery

/-! ### Rules by kind -/

/-- Rules for other kinds do not change what is found under a kind. -/
theorem Dialect.rule?_foldl_insert {rules : List Rule} {kind : String} (D : Dialect)
    (h : kind ∉ rules.map Rule.kind) :
    (rules.foldl Dialect.insert D).rule? kind = D.rule? kind := by
  induction rules generalizing D with
  | nil => rfl
  | cons r rules ih =>
    rw [List.map_cons, List.mem_cons, not_or] at h
    rw [List.foldl_cons, ih _ h.2, Dialect.insert, Dialect.rule?_register, if_neg h.1]

/-- Where every rule has a kind of its own, it is found under it. -/
theorem Dialect.rule?_foldl_insert_self {rules : List Rule} {r : Rule} (D : Dialect)
    (hnodup : (rules.map Rule.kind).Nodup) (hr : r ∈ rules) :
    (rules.foldl Dialect.insert D).rule? r.kind = some r := by
  induction rules generalizing D with
  | nil => cases hr
  | cons s rules ih =>
    rw [List.map_cons, List.nodup_cons] at hnodup
    rw [List.foldl_cons]
    rcases List.mem_cons.1 hr with rfl | hr
    · rw [Dialect.rule?_foldl_insert _ hnodup.1, Dialect.insert, Dialect.rule?_register, if_pos rfl]
    · exact ih _ hnodup.2 hr

/-- Every rule of the language is found under its kind. -/
theorem Dialect.standard_rule?_of_mem {r : Rule} (hr : r ∈ Rule.standard) :
    Dialect.standard.rule? r.kind = some r := by
  have hnodup : (Rule.standard.map Rule.kind).Nodup := by decide +kernel
  rw [Dialect.standard, Dialect.ofRules]
  exact Dialect.rule?_foldl_insert_self _ hnodup hr

theorem Rule.construct_mem_standard (c : Construct) : Rule.construct c ∈ Rule.standard := by
  cases c with
  | logical op => cases op <;> decide
  | aggregate f => cases f <;> decide
  | _ => decide

theorem Rule.call_mem_standard {kind keyword : String} (h : (kind, keyword) ∈ callKeywords) :
    Rule.call kind keyword ∈ Rule.standard := by
  rw [Rule.standard, List.append_assoc, List.append_assoc, List.mem_append, List.mem_append]
  exact .inr (.inl (List.mem_map.2 ⟨_, h, rfl⟩))

/-- A rule of the language for calls is one of the built-in ones. -/
theorem Rule.mem_callKeywords {kind keyword : String} (h : Rule.call kind keyword ∈ Rule.standard) :
    (kind, keyword) ∈ callKeywords := by
  simp only [Rule.standard, List.mem_append, List.mem_map, List.mem_singleton] at h
  rcases h with ((⟨c, -, hc⟩ | ⟨call, hcall, heq⟩) | ⟨f, -, hf⟩) | hr
  · cases hc
  · cases heq
    exact hcall
  · cases hf
  · cases hr

/-- Every construct has its own rule. -/
theorem Dialect.standard_rule? (c : Construct) :
    Dialect.standard.rule? c.kind = some (.construct c) :=
  Dialect.standard_rule?_of_mem (Rule.construct_mem_standard c)

theorem Dialect.standard_hasWords : Dialect.standard.HasWords := by
  have hcalls : ∀ call ∈ callKeywords, isWord call.2 = true := by decide
  intro kind k w h
  exact hcalls _ (Rule.mem_callKeywords (Dialect.rule?_ofRules h).1)

/-- A construct is written in the one way there is. -/
theorem Part.write_of_form {p : Part} {c : Construct} (h : p.form = .construct c) :
    Dialect.standard.write p = p.layout .standard "" := by
  have hkind : p.kind = c.kind := by rw [Part.kind, h, Form.kind]
  have hfits : (Rule.construct c).fits p = true := by
    rw [Rule.fits, Rule.form, h]
    exact beq_self_eq_true _
  rw [Dialect.write, Dialect.accept, hkind, Dialect.standard_rule?]
  show (Rule.construct c).accept p _ = _
  rw [Rule.accept, if_pos hfits]
  rfl

/-- An expression of a construct is written in the one way there is. -/
theorem Expr.write_of_form {e : Expr} {c : Construct} (h : e.form = .construct c) :
    Dialect.standard.write (.expr e) = e.layout .standard "" :=
  Part.write_of_form h

/-! ### Kinds without a rule -/

/-- Kinds that are left without a rule have none, and the others keep theirs. -/
theorem Dialect.rule?_foldl_without (removed : List String) (D : Dialect) (kind : String) :
    (removed.foldl Dialect.without D).rule? kind
      = if kind ∈ removed then none else D.rule? kind := by
  induction removed generalizing D with
  | nil => simp
  | cons k removed ih =>
    rw [List.foldl_cons, ih, Dialect.rule?_without]
    by_cases hk : kind = k <;> by_cases hmem : kind ∈ removed <;> simp [hk, hmem]

theorem Dialect.hasWords_foldl_without {D : Dialect} (h : D.HasWords) (removed : List String) :
    (removed.foldl Dialect.without D).HasWords := by
  intro kind k w hr
  rw [Dialect.rule?_foldl_without] at hr
  split at hr
  · cases hr
  · exact h kind k w hr

end PersistenceQuery
