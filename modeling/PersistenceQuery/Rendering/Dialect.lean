import PersistenceQuery.Keyed
import PersistenceQuery.Query.Part
import PersistenceQuery.Rendering.Emission

/-!
# Dialects

A dialect says by which rule the parts of each kind are written.  A rule is made for one form of
part: for a construct, which it writes in the one way there is, or for the calls of a kind, whose
keyword it sets.  A rule may be kept under the kind of another; it still refuses every part of
another form than its own.

## Main definitions

* `Rule`, `Rule.fits` — a rule, and the parts that it is made for.
* `Dialect`, `Dialect.rule?` — rules by kind.
* `Dialect.register`, `Dialect.without` — a rule kept under a kind, and a kind left without one.
* `Dialect.standard` — the rules of the language.
* `Dialect.accept` — looks up the rule for a part and takes it if it fits.
-/

namespace PersistenceQuery

/-- How the parts of one form are written. -/
inductive Rule
  /-- In the one way in which the construct is written. -/
  | construct (c : Construct)
  /-- As a call: the keyword and the arguments between parentheses. -/
  | call (kind keyword : String)
  deriving DecidableEq, Repr

namespace Rule

/-- The form of part that the rule is made for. -/
def form : Rule → Form
  | construct c => .construct c
  | call kind _ => .call kind

/-- The kind that the rule is made for. -/
def kind (r : Rule) : String := r.form.kind

/-- The keyword of a call; a construct has its own words. -/
def keyword : Rule → String
  | construct _ => ""
  | call _ keyword => keyword

/-- The part has the form that the rule is made for. -/
def fits (r : Rule) (p : Part) : Bool := r.form == p.form

/-- Takes the rule for a part that it fits, and refuses any other part before anything is
written. -/
def accept (r : Rule) (p : Part) (layout : String → List Emission) : List Emission :=
  if r.fits p then layout r.keyword else [.stop (.mismatch r.kind p.kind)]

/-- The rules of the language, one for each form: first those of queries and clauses, then those
of expressions, predicates and functions. -/
def standard : List Rule :=
  ([.selectQuery, .updateQuery, .deleteQuery, .entity, .join, .sort, .assignment, .literal,
    .parameter, .path, .entityReference, .aliased, .arithmetic, .negate, .choice, .subquery,
    .comparison, .logical .and, .logical .or, .not, .like, .between, .inList, .inSubquery,
    .isNull, .isEmpty, .memberOf, .exists] : List Construct).map construct
  ++ callKeywords.map (fun (kind, keyword) => call kind keyword)
  ++ AggregateFunction.all.map (fun f => construct (.aggregate f))
  ++ [construct .function]

end Rule

/-- Rules by the kinds under which they are kept. -/
structure Dialect where
  entries : List (String × Rule)

namespace Dialect

/-- No rules at all. -/
def empty : Dialect := ⟨[]⟩

instance : EmptyCollection Dialect := ⟨empty⟩

/-- The rule kept under a kind. -/
def rule? (D : Dialect) (kind : String) : Option Rule := D.entries.lookup kind

/-- A rule is kept under the kind. -/
def contains (D : Dialect) (kind : String) : Bool := (D.rule? kind).isSome

/-- Leaves the kind without a rule. -/
def without (D : Dialect) (kind : String) : Dialect := ⟨D.entries.filter (·.1 != kind)⟩

/-- Keeps the rule under the kind, in place of the one that was there. -/
def register (D : Dialect) (kind : String) (rule : Rule) : Dialect :=
  ⟨(kind, rule) :: (D.without kind).entries⟩

/-- Keeps the rule under the kind that it is made for. -/
def insert (D : Dialect) (rule : Rule) : Dialect := D.register rule.kind rule

/-- Each rule under its own kind, a later one in place of an earlier one. -/
def ofRules (rules : List Rule) : Dialect := rules.foldl insert empty

/-- The rules of the language. -/
def standard : Dialect := ofRules Rule.standard

/-- The number of kinds that have a rule. -/
def size (D : Dialect) : Nat := D.entries.length

/-- The kinds that have a rule, sorted. -/
def kinds (D : Dialect) : List String :=
  (D.entries.map Prod.fst).mergeSort fun a b => decide (a ≤ b)

/-- A kind left without a rule has none, and the others keep theirs. -/
theorem rule?_without (D : Dialect) (kind k : String) :
    (D.without kind).rule? k = if k = kind then none else D.rule? k := by
  simpa [rule?, without] using Keyed.lookup_filter_ne kind k D.entries

/-- A kind under which a rule is registered has that rule, and the others keep theirs. -/
theorem rule?_register (D : Dialect) (kind k : String) (r : Rule) :
    (D.register kind r).rule? k = if k = kind then some r else D.rule? k := by
  have h := rule?_without D kind k
  simp only [rule?] at h
  by_cases hk : k = kind <;> simp_all [rule?, register, Keyed.lookup_cons]

/-- The rule that is kept under a kind is one of those that the dialect is made of, and made for
that kind. -/
theorem rule?_ofRules {rules : List Rule} {kind : String} {r : Rule}
    (h : (ofRules rules).rule? kind = some r) : r ∈ rules ∧ r.kind = kind := by
  suffices general : ∀ (rules : List Rule) (D : Dialect),
      (rules.foldl insert D).rule? kind = some r →
      D.rule? kind = some r ∨ (r ∈ rules ∧ r.kind = kind) by
    rcases general rules empty h with h | h
    · simp [rule?, empty] at h
    · exact h
  intro rules
  induction rules with
  | nil => exact fun D h => .inl h
  | cons s rules ih =>
    intro D h
    rcases ih (D.insert s) h with h | ⟨hr, hkind⟩
    · rw [insert, rule?_register] at h
      split at h
      · next hs =>
        obtain rfl := Option.some.inj h
        exact .inr ⟨List.mem_cons_self, hs.symm⟩
      · exact .inl h
    · exact .inr ⟨List.mem_cons_of_mem _ hr, hkind⟩

/-- Writes a part by the rule kept under its kind. -/
def accept (D : Dialect) (p : Part) (layout : String → List Emission) : List Emission :=
  match D.rule? p.kind with
  | none => [.stop (.unsupportedKind p.kind)]
  | some r => r.accept p layout

end Dialect
end PersistenceQuery
