import PersistenceQuery.Proofs.Query.Checked
import PersistenceQuery.Proofs.Query.Occurrence

/-!
# The rules of a query

What a query has to look like, said once without an order: `Query.KeepsRules` speaks of every
selecting query, named parameter and list of members that occurs in it.  And said with an order:
`Query.violations` lists everything that is wrong, rule by rule.  The check of the shape finds the
first of these, and a query passes it if and only if it keeps the rules.

## Main definitions

* `IsIdentifier` — a letter or underscore, then letters, digits and underscores.
* `Entity.KeepsRules`, `Join.KeepsRules`, `Select.KeepsRules`, `Query.KeepsRules` — the rules.
* `Select.violations`, `Expr.violations`, `Query.violations` — the rules that are broken, in order.
* `firstOf` — a check that fails with the first of some faults.

## Main results

* `Query.checkShape_eq` — the check fails with the first violation.
* `Query.violations_eq_nil` — there is none if and only if the query keeps the rules.
* `Query.checkShape_decides` — both, for every query.
-/

namespace PersistenceQuery

/-! ### The rules -/

/-- A letter of ASCII or an underscore. -/
def IsNameLetter (c : Char) : Prop := ('A' ≤ c ∧ c ≤ 'Z') ∨ ('a' ≤ c ∧ c ≤ 'z') ∨ c = '_'

/-- A letter or underscore, and behind it letters, digits and underscores. -/
def IsIdentifier (s : String) : Prop :=
  ∃ c cs, s.toList = c :: cs ∧ IsNameLetter c
    ∧ ∀ d ∈ cs, IsNameLetter d ∨ ('0' ≤ d ∧ d ≤ '9')

/-- An entity has a name and a label. -/
structure Entity.KeepsRules (e : Entity) : Prop where
  name : e.name ≠ ""
  label : e.label ≠ ""

/-- A joined entity comes with a condition and is not fetched; the path to an association has no
gaps, and the association has a label. -/
def Join.KeepsRules (j : Join) : Prop :=
  match j.target with
  | .entity e => e.KeepsRules ∧ j.condition.isSome = true ∧ j.fetch = false
  | .association path label => (∀ s ∈ path.segments, s ≠ "") ∧ label ≠ ""

/-- A selecting query selects something from somewhere. -/
structure Select.KeepsRules (q : Select) : Prop where
  items : q.items ≠ []
  sources : q.sources ≠ []
  entities : ∀ s ∈ q.sources, s.entity.KeepsRules
  joins : ∀ s ∈ q.sources, ∀ j ∈ s.joins, j.KeepsRules

/-- The entity of a query that changes or removes something. -/
def Query.target? : Query → Option Entity
  | .select _ => none
  | .update q => some q.entity
  | .delete q => some q.entity

/-- The rules of a query, wherever in it they apply. -/
structure Query.KeepsRules (q : Query) : Prop where
  target : ∀ e, q.target? = some e → e.KeepsRules
  assignments : ∀ u, q = .update u → u.assignments ≠ []
  selects : ∀ s, q.Selects s → s.KeepsRules
  parameters : ∀ name embedded, q.Occurs (.parameter name embedded) → IsIdentifier name
  members : ∀ v es negated, q.Occurs (.inList v es negated) → es ≠ []

/-! ### Identifiers -/

theorem isNameLetter_iff (c : Char) : IsNameLetter c ↔ (c.isAlpha || c == '_') = true := by
  delta Char.isAlpha Char.isUpper Char.isLower
  simp only [IsNameLetter, Char.le_def, Bool.or_eq_true, Bool.and_eq_true, decide_eq_true_eq,
    beq_iff_eq, or_assoc]

theorem isNameChar_iff (c : Char) :
    isNameChar c = true ↔ IsNameLetter c ∨ ('0' ≤ c ∧ c ≤ '9') := by
  have hdigit : c.isDigit = true ↔ '0' ≤ c ∧ c ≤ '9' := by
    simp only [Char.isDigit, Char.le_def, Bool.and_eq_true, decide_eq_true_eq]
  rw [isNameLetter_iff, ← hdigit, isNameChar, Char.isAlphanum]
  simp only [Bool.or_eq_true]
  exact or_right_comm

/-- The names that a parameter may have are the identifiers. -/
theorem isParameterName_iff (s : String) : isParameterName s = true ↔ IsIdentifier s := by
  rw [isParameterName, IsIdentifier]
  cases s.toList with
  | nil => simp
  | cons c cs =>
    simp only [Bool.and_eq_true, ← isNameLetter_iff, List.all_eq_true, isNameChar_iff]
    constructor
    · rintro ⟨hc, hcs⟩
      exact ⟨c, cs, rfl, hc, hcs⟩
    · rintro ⟨d, ds, heq, hd, hds⟩
      cases heq
      exact ⟨hd, hds⟩

instance (s : String) : Decidable (IsIdentifier s) := decidable_of_iff _ (isParameterName_iff s)

/-! ### Violations -/

/-- The fault of a rule, if the rule is broken. -/
def broken (p : Prop) [Decidable p] (fault : ShapeFault) : List ShapeFault :=
  if p then [fault] else []

theorem broken_eq_nil {p : Prop} [Decidable p] {fault : ShapeFault} :
    broken p fault = [] ↔ ¬ p := by
  unfold broken
  split <;> simp [*]

def Entity.violations (e : Entity) : List ShapeFault :=
  broken (e.name = "") .unnamedEntity ++ broken (e.label = "") (.unlabelledEntity e.name)

def Join.violations (j : Join) : List ShapeFault :=
  match j.target with
  | .entity e =>
    e.violations ++ broken (j.condition.isNone = true) (.unconditionalJoin e.name)
      ++ broken (j.fetch = true) (.fetchedEntity e.name)
  | .association path label =>
    broken ("" ∈ path.segments) (.malformedJoinPath path)
      ++ broken (label = "") (.unlabelledJoin path)

/-- Those of the entity come before those of its joins. -/
def Source.violations (s : Source) : List ShapeFault :=
  s.entity.violations ++ s.joins.flatMap Join.violations

def Select.violations (q : Select) : List ShapeFault :=
  broken (q.items.isEmpty = true) .emptySelection ++ broken (q.sources.isEmpty = true) .noSource
    ++ q.sources.flatMap Source.violations

/-- The rules that an expression breaks itself; those inside it count for themselves. -/
def Expr.violations : Expr → List ShapeFault
  | .subquery q | .exists q _ | .inSubquery _ q _ => q.violations
  | .parameter name _ => broken (¬ IsIdentifier name) (.invalidParameterName name)
  | .inList _ members _ => broken (members.isEmpty = true) .emptyMembers
  | _ => []

/-- The rules that the query breaks itself. -/
def Query.rootViolations : Query → List ShapeFault
  | .select q => q.violations
  | .update q => q.entity.violations ++ broken (q.assignments.isEmpty = true) .noAssignments
  | .delete q => q.entity.violations

/-- All rules that are broken in a query: first those of the query itself, then those of its
expressions in the order of its nodes. -/
def Query.violations (q : Query) : List ShapeFault :=
  q.rootViolations ++ q.nodes.flatMap Expr.violations

/-! ### The first violation -/

/-- Fails with the first of the faults. -/
def firstOf {ε : Type} : List ε → Except ε Unit
  | [] => .ok ()
  | fault :: _ => .error fault

section
variable {ε α : Type}

theorem firstOf_eq_ok {faults : List ε} : firstOf faults = .ok () ↔ faults = [] := by
  cases faults <;> simp [firstOf]

theorem firstOf_eq_error {faults : List ε} {fault : ε} :
    firstOf faults = .error fault ↔ faults.head? = some fault := by
  cases faults <;> simp [firstOf]

/-- Where one list has no fault, the first one of the other counts. -/
theorem firstOf_append (as bs : List ε) :
    firstOf (as ++ bs) = (firstOf as).bind fun _ => firstOf bs := by
  cases as <;> rfl

/-- A check of a list fails with the first fault of its first member that has one. -/
theorem forM_eq_firstOf {check : α → Except ε Unit} {faults : α → List ε}
    (h : ∀ a, check a = firstOf (faults a)) (as : List α) :
    as.forM check = firstOf (as.flatMap faults) := by
  induction as with
  | nil => rfl
  | cons a as ih =>
    rw [List.flatMap_cons, firstOf_append, ← ih, ← h]
    exact List.forM_cons

end

theorem firstOf_broken (p : Prop) [Decidable p] (fault : ShapeFault) :
    firstOf (broken p fault) = if p then .error fault else .ok () := by
  unfold broken
  split <;> rfl

theorem Entity.checkShape_eq (e : Entity) : e.checkShape = firstOf e.violations := by
  rw [Entity.checkShape, Entity.violations, firstOf_append, firstOf_broken, firstOf_broken]
  simp only [String.isEmpty_iff]
  split <;> rfl

theorem Join.checkShape_eq (j : Join) : j.checkShape = firstOf j.violations := by
  rw [Join.checkShape, Join.violations]
  cases j.target with
  | entity e =>
    simp only [Entity.checkShape_eq, firstOf_append, firstOf_broken]
    cases firstOf e.violations with
    | error fault => rfl
    | ok u => cases j.condition <;> cases j.fetch <;> rfl
  | association path label =>
    have hgap : path.segments.any String.isEmpty = true ↔ "" ∈ path.segments := by
      simp [List.any_eq_true, String.isEmpty_iff]
    simp only [hgap, String.isEmpty_iff, firstOf_append, firstOf_broken]
    split <;> rfl

theorem Source.checkShape_eq (s : Source) : s.checkShape = firstOf s.violations := by
  rw [Source.checkShape, Source.violations, firstOf_append, Entity.checkShape_eq,
    forM_eq_firstOf Join.checkShape_eq]
  rfl

theorem Select.checkShape_eq (q : Select) : q.checkShape = firstOf q.violations := by
  rw [Select.checkShape, Select.violations, firstOf_append, firstOf_append, firstOf_broken,
    firstOf_broken, forM_eq_firstOf Source.checkShape_eq]
  cases q.items.isEmpty <;> cases q.sources.isEmpty <;> rfl

theorem Expr.checkShape_eq (e : Expr) : e.checkShape = firstOf e.violations := by
  cases e with
  | subquery q => exact q.checkShape_eq
  | «exists» q negated => exact q.checkShape_eq
  | inSubquery v q negated => exact q.checkShape_eq
  | parameter name embedded =>
    simp only [Expr.checkShape, Expr.violations, firstOf_broken, isParameterName_iff, ite_not]
  | inList v members negated => rw [Expr.checkShape, Expr.violations, firstOf_broken]
  | _ => rfl

theorem Query.checkRoot_eq (q : Query) : q.checkRoot = firstOf q.rootViolations := by
  cases q with
  | select q => exact q.checkShape_eq
  | update q =>
    rw [Query.checkRoot, Query.rootViolations, firstOf_append, firstOf_broken,
      Entity.checkShape_eq]
    rfl
  | delete q => exact q.entity.checkShape_eq

/-- The check of a query fails with the first rule that is broken. -/
theorem Query.checkShape_eq (q : Query) : q.checkShape = firstOf q.violations := by
  rw [Query.checkShape, Query.violations, firstOf_append, Query.checkRoot_eq,
    forM_eq_firstOf Expr.checkShape_eq]
  rfl

/-! ### No violation -/

theorem Entity.violations_eq_nil {e : Entity} : e.violations = [] ↔ e.KeepsRules := by
  rw [Entity.violations, List.append_eq_nil_iff, broken_eq_nil, broken_eq_nil]
  exact ⟨fun h => ⟨h.1, h.2⟩, fun h => ⟨h.name, h.label⟩⟩

theorem Join.violations_eq_nil {j : Join} : j.violations = [] ↔ j.KeepsRules := by
  rw [Join.violations, Join.KeepsRules]
  cases j.target with
  | entity e =>
    simp only [List.append_eq_nil_iff, broken_eq_nil, Entity.violations_eq_nil,
      Bool.not_eq_true, Option.isNone_eq_false_iff, and_assoc]
  | association path label =>
    simp only [List.append_eq_nil_iff, broken_eq_nil]
    refine and_congr_left' ⟨fun h s hs heq => h (heq ▸ hs), fun h hmem => h _ hmem rfl⟩

theorem Select.violations_eq_nil {q : Select} : q.violations = [] ↔ q.KeepsRules := by
  simp only [Select.violations, Source.violations, List.append_eq_nil_iff, broken_eq_nil,
    List.isEmpty_iff, List.flatMap_eq_nil_iff, Entity.violations_eq_nil, Join.violations_eq_nil]
  constructor
  · rintro ⟨⟨hitems, hsources⟩, h⟩
    exact ⟨hitems, hsources, fun s hs => (h s hs).1, fun s hs => (h s hs).2⟩
  · intro h
    exact ⟨⟨h.items, h.sources⟩, fun s hs => ⟨h.entities s hs, h.joins s hs⟩⟩

/-- An expression breaks no rule if its subquery, its name or its members keep theirs. -/
theorem Expr.violations_eq_nil {e : Expr} :
    e.violations = [] ↔ (∀ s, e.subquery? = some s → s.KeepsRules)
      ∧ (∀ name embedded, e = .parameter name embedded → IsIdentifier name)
      ∧ ∀ v es negated, e = .inList v es negated → es ≠ [] := by
  cases e <;>
    simp [Expr.violations, Expr.subquery?, Select.violations_eq_nil, broken_eq_nil]

theorem Query.rootViolations_eq_nil {q : Query} :
    q.rootViolations = [] ↔ (∀ e, q.target? = some e → e.KeepsRules)
      ∧ (∀ u, q = .update u → u.assignments ≠ [])
      ∧ ∀ s, q.select? = some s → s.KeepsRules := by
  cases q <;>
    simp [Query.rootViolations, Query.target?, Query.select?, Select.violations_eq_nil,
      Entity.violations_eq_nil, broken_eq_nil]

/-- No rule is broken in a query if and only if it keeps the rules wherever they apply. -/
theorem Query.violations_eq_nil {q : Query} : q.violations = [] ↔ q.KeepsRules := by
  simp only [Query.violations, List.append_eq_nil_iff, List.flatMap_eq_nil_iff,
    Query.rootViolations_eq_nil, Expr.violations_eq_nil, Query.mem_nodes_iff]
  constructor
  · rintro ⟨⟨htarget, hassignments, hselect⟩, hoccurs⟩
    refine ⟨htarget, hassignments, ?_, ?_, ?_⟩
    · rintro s (hs | ⟨he, hs⟩)
      · exact hselect s hs
      · exact (hoccurs _ he).1 s hs
    · exact fun name embedded h => (hoccurs _ h).2.1 name embedded rfl
    · exact fun v es negated h => (hoccurs _ h).2.2 v es negated rfl
  · intro h
    refine ⟨⟨h.target, h.assignments, fun s hs => h.selects s (.root hs)⟩, fun e he => ?_⟩
    refine ⟨fun s hs => h.selects s (.inside he hs), ?_, ?_⟩
    · rintro name embedded rfl
      exact h.parameters name embedded he
    · rintro v es negated rfl
      exact h.members v es negated he

/-- The check of a query decides whether it keeps the rules, and reports the first violation if it
does not. -/
theorem Query.checkShape_decides (q : Query) :
    (q.checkShape = .ok () ↔ q.KeepsRules)
      ∧ ∀ cause, q.checkShape = .error cause ↔ q.violations.head? = some cause := by
  rw [Query.checkShape_eq]
  exact ⟨firstOf_eq_ok.trans Query.violations_eq_nil, fun cause => firstOf_eq_error⟩

end PersistenceQuery
