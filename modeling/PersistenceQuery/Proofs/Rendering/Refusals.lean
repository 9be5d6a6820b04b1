import PersistenceQuery.Proofs.Rendering.Delegated

/-!
# What a rule refuses

A rule takes the parts of one form and refuses all others before anything is written, so a refusal
leaves a draft as it was.  Where it fails for a part that it is made for, the value of a literal or
of a parameter is missing, a list of members is empty, or a part inside could not be written.

## Main definitions

* `Rule.Refuses` — the parts that a rule is not made for.
* `Rule.Fails` — how a rule can fail for a part that it is made for.

## Main results

* `Rule.fits_iff` — a rule fits the parts that it does not refuse.
* `Rule.emitAll_write_iff` — a rule refuses what it is not made for and leaves the draft as it was,
  and everything else fails in one of the few ways only.
-/

namespace PersistenceQuery

/-! ### The parts that a rule is made for -/

/-- A call that the language has a node for. -/
def Part.IsBuiltInCall : Part → Prop
  | .expr (.unary _ _) | .expr (.current _) | .expr (.variadic _ _) | .expr (.substring _ _ _)
  | .expr (.nullIf _ _) => True
  | _ => False

/-- A node of a kind of its own. -/
def Part.IsCustom : Part → Prop
  | .expr (.custom _ _) => True
  | _ => False

/-- A rule that writes calls. -/
def Rule.IsCall : Rule → Prop
  | .call _ _ => True
  | .construct _ => False

/-- The parts that a rule is not made for: those of another kind, with a rule for a construct the
nodes of a kind of their own, and with a rule for calls what is not a call. -/
def Rule.Refuses (r : Rule) (p : Part) : Prop :=
  p.kind ≠ r.kind ∨ p.IsCustom ∧ ¬ r.IsCall ∨ r.IsCall ∧ ¬ (p.IsBuiltInCall ∨ p.IsCustom)

/-- Every construct has a kind of its own. -/
theorem Construct.kind_injective {c c' : Construct} (h : c.kind = c'.kind) : c = c' := by
  have hrule := Dialect.standard_rule? c
  rw [h, Dialect.standard_rule? c'] at hrule
  cases hrule
  rfl

/-- The calls of the language have other kinds than its constructs. -/
theorem Construct.kind_notMem_callKeywords (c : Construct) :
    c.kind ∉ callKeywords.map Prod.fst := by
  intro h
  obtain ⟨r, hr, hform⟩ := exists_rule_of_call h
  have hkind : r.kind = c.kind := by rw [Rule.kind, hform, Form.kind]
  have hrule := Dialect.standard_rule?_of_mem hr
  rw [hkind, Dialect.standard_rule?] at hrule
  cases hrule
  cases hform

/-- A part is a construct, a call of the language or a node of a kind of its own. -/
theorem Part.form_cases (p : Part) :
    (∃ c, p.form = .construct c ∧ ¬ p.IsBuiltInCall ∧ ¬ p.IsCustom)
      ∨ (∃ kind ∈ callKeywords.map Prod.fst, p.form = .call kind ∧ p.IsBuiltInCall ∧ ¬ p.IsCustom)
      ∨ ∃ kind, p.form = .call kind ∧ p.IsCustom := by
  cases p with
  | expr e =>
    cases e with
    | custom kind es => exact .inr (.inr ⟨kind, rfl, trivial⟩)
    | unary f v => exact .inr (.inl ⟨f.name, by cases f <;> decide, rfl, trivial, id⟩)
    | current m => exact .inr (.inl ⟨m.name, by cases m <;> decide, rfl, trivial, id⟩)
    | variadic f es => exact .inr (.inl ⟨f.name, by cases f <;> decide, rfl, trivial, id⟩)
    | substring v start length => exact .inr (.inl ⟨substringKind, by decide, rfl, trivial, id⟩)
    | nullIf l r => exact .inr (.inl ⟨nullIfKind, by decide, rfl, trivial, id⟩)
    | _ => exact .inl ⟨_, rfl, id, id⟩
  | _ => exact .inl ⟨_, rfl, id, id⟩

/-- A rule fits the parts that it does not refuse. -/
theorem Rule.fits_iff (r : Rule) (p : Part) : r.fits p = true ↔ ¬ r.Refuses p := by
  rw [Rule.fits, beq_iff_eq, Rule.Refuses, Part.kind, Rule.kind]
  rcases p.form_cases with ⟨c, hform, hbuilt, hcustom⟩ | ⟨kind, hmem, hform, hbuilt, hcustom⟩
    | ⟨kind, hform, hcustom⟩ <;> rw [hform]
  · -- a construct fits the rule that is made for it
    cases r with
    | call k w => simp [form, IsCall, hbuilt, hcustom]
    | construct c' =>
      have hkind : c.kind = c'.kind ↔ c' = c :=
        ⟨fun h => (Construct.kind_injective h).symm, by grind⟩
      simp [form, Form.kind, IsCall, hcustom, hkind]
  · -- a call of the language fits a rule for the calls of its kind
    cases r with
    | call k w => simp [form, Form.kind, IsCall, hbuilt, hcustom, eq_comm]
    | construct c =>
      have hkind : kind ≠ c.kind := fun h => c.kind_notMem_callKeywords (h ▸ hmem)
      simp [form, Form.kind, IsCall, hkind]
  · -- so does a node of a kind of its own
    cases r with
    | call k w => simp [form, Form.kind, IsCall, hcustom, eq_comm]
    | construct c => simp [form, IsCall, hcustom]

/-! ### How a rule fails -/

/-- `r.Fails D p d d' fault`: from the draft `d` the rule `r` cannot write the part `p`, for
something that is missing in it or for a part inside that the dialect `D` could not write, and
leaves the draft `d'`. -/
inductive Rule.Fails (r : Rule) (D : Dialect) : Part → Draft → Draft → Fault → Prop
  | members (v : Expr) (negated : Bool) (d : Draft) :
    r.Fails D (.expr (.inList v [] negated)) d d (.invalidShape .emptyMembers)
  | literal {v : Value} {d : Draft} {cause : ValueFault} (hmode : d.binder.mode = .inline)
    (hv : v.literal = .error cause) : r.Fails D (.expr (.literal v)) d d (.unsupportedValue cause)
  | parameter {name : String} {embedded : Option Value} {d : Draft}
    (h : d.binder.valueFor name embedded = none) :
    r.Fails D (.expr (.parameter name embedded)) d d (.missingBinding name)
  | inner {p c : Part} {before after : List Emission} {d d₁ d' : Draft} {fault : Fault}
    (hc : c ∈ p.inner) (hwrite : r.write D p = before ++ D.write c ++ after)
    (hbefore : d.emitAll before = (d₁, none)) (hfail : d₁.emitAll (D.write c) = (d', some fault)) :
    r.Fails D p d d' fault

theorem Rule.write_of_fits {r : Rule} {D : Dialect} {p : Part} (h : r.fits p = true) :
    r.write D p = p.layout D r.keyword := by
  rw [Rule.write, Rule.accept, if_pos h]

/-- A single emission fails with its own fault and leaves the draft as it was. -/
theorem Draft.emitAll_singleton {d d' : Draft} {e : Emission} {fault : Fault} :
    d.emitAll [e] = (d', some fault) ↔ d.emit e = (d', some fault) := by
  rw [emitAll]
  rcases d.emit e with ⟨d₁, _ | f⟩ <;> simp [emitAll]

/-- A value fails where it is to stand in the text and has no literal. -/
theorem Draft.emit_value_eq_some {d d' : Draft} {v : Value} {fault : Fault} :
    d.emit (.value v) = (d', some fault) ↔ d.binder.mode = .inline
      ∧ ∃ cause, v.literal = .error cause ∧ d' = d ∧ fault = .unsupportedValue cause := by
  rw [emit, Binder.register]
  cases d.binder.mode with
  | placeholder => simp [bound]
  | inline => cases v.literal <;> simp [bound, @eq_comm _ d, @eq_comm _ fault]

/-- A parameter fails where it has no value. -/
theorem Draft.emit_parameter_eq_some {d d' : Draft} {name : String} {embedded : Option Value}
    {fault : Fault} :
    d.emit (.parameter name embedded) = (d', some fault)
      ↔ d.binder.valueFor name embedded = none ∧ d' = d ∧ fault = .missingBinding name := by
  rw [emit, Binder.bind]
  cases d.binder.valueFor name embedded <;> simp [bound, @eq_comm _ d, @eq_comm _ fault]

/-- Where a rule fails for a part that it is made for, it is in one of the few ways. -/
theorem Rule.Fails.of_emitAll {r : Rule} {D : Dialect} {p : Part} (hfits : r.fits p = true)
    {d d' : Draft} {fault : Fault} (h : d.emitAll (r.write D p) = (d', some fault)) :
    r.Fails D p d d' fault := by
  have hlayout := h
  rw [Rule.write_of_fits hfits] at hlayout
  by_cases hliteral : ∃ v, p = .expr (.literal v)
  · obtain ⟨v, rfl⟩ := hliteral
    obtain ⟨hmode, cause, hv, rfl, rfl⟩ :=
      Draft.emit_value_eq_some.1 (Draft.emitAll_singleton.1 hlayout)
    exact .literal hmode hv
  by_cases hparameter : ∃ name v, p = .expr (.parameter name v)
  · obtain ⟨name, v, rfl⟩ := hparameter
    obtain ⟨hunbound, rfl, rfl⟩ :=
      Draft.emit_parameter_eq_some.1 (Draft.emitAll_singleton.1 hlayout)
    exact .parameter hunbound
  by_cases hmembers : ∃ v negated, p = .expr (.inList v [] negated)
  · obtain ⟨v, negated, rfl⟩ := hmembers
    cases Draft.emitAll_singleton.1 hlayout
    exact .members v negated d
  have hdelegated : Delegated D p.inner (p.layout D r.keyword) :=
    p.delegated_layout r.keyword (fun v h => hliteral ⟨v, h⟩)
      (fun name v h => hparameter ⟨name, v, h⟩) (fun v negated h => hmembers ⟨v, negated, h⟩)
  obtain ⟨c, hc, before, after, d₁, heq, hbefore, hfail⟩ := hdelegated.exists_failing hlayout
  exact .inner hc ((Rule.write_of_fits hfits).trans heq) hbefore hfail

/-- Each of the ways in which a rule can fail is one in which it does. -/
theorem Rule.Fails.emitAll {r : Rule} {D : Dialect} {p : Part} (hfits : r.fits p = true)
    {d d' : Draft} {fault : Fault} (h : r.Fails D p d d' fault) :
    d.emitAll (r.write D p) = (d', some fault) := by
  cases h with
  | members v negated =>
    rw [Rule.write_of_fits hfits]
    rfl
  | literal hmode hv =>
    rw [Rule.write_of_fits hfits]
    exact Draft.emitAll_singleton.2 (Draft.emit_value_eq_some.2 ⟨hmode, _, hv, rfl, rfl⟩)
  | parameter h =>
    rw [Rule.write_of_fits hfits]
    exact Draft.emitAll_singleton.2 (Draft.emit_parameter_eq_some.2 ⟨h, rfl, rfl⟩)
  | inner hc hwrite hbefore hfail =>
    rw [hwrite, List.append_assoc, Draft.emitAll_append, hbefore]
    simp only
    rw [Draft.emitAll_append, hfail]

/-- A rule refuses the parts that it is not made for, with the kinds of both and before anything is
written.  For any other part it fails only for what is missing in the part, or with a part inside
that the dialect fails to write. -/
theorem Rule.emitAll_write_iff (r : Rule) (D : Dialect) (p : Part) (d : Draft) :
    (r.Refuses p → d.emitAll (r.write D p) = (d, some (.mismatch r.kind p.kind)))
      ∧ (¬ r.Refuses p → ∀ d' fault,
        d.emitAll (r.write D p) = (d', some fault) ↔ r.Fails D p d d' fault) := by
  constructor
  · intro hrefuses
    have hfits : ¬ r.fits p = true := fun h => (r.fits_iff p).1 h hrefuses
    rw [Rule.write, Rule.accept, if_neg hfits]
    rfl
  · intro hrefuses d' fault
    have hfits := (r.fits_iff p).2 hrefuses
    exact ⟨Rule.Fails.of_emitAll hfits, Rule.Fails.emitAll hfits⟩

/-- A rule for calls that is kept under the kind of a construct still refuses the construct. -/
example (D : Dialect) (d : Draft) (p : Path) :
    d.emitAll ((Rule.call "path" "PATH").write D (.expr (.path p)))
      = (d, some (.mismatch "path" "path")) := rfl

end PersistenceQuery
