/-!
# Binding strength

How tightly the parts of an expression hold together, and where an operand needs parentheses.

## Main definitions

* `Strength` — the nine levels, weakest first, ordered by `Strength.rank`.
* `Side` — where an operand stands in its operator.
* `needsParentheses` — whether an operand has to be put in parentheses.
-/

namespace PersistenceQuery

/-- How tightly an expression binds, weakest first. -/
inductive Strength
  | aliased
  | or
  | and
  | not
  /-- Comparisons and the tests `LIKE`, `BETWEEN`, `IN`, `IS` and `MEMBER OF`. -/
  | predicate
  | additive
  | multiplicative
  | unary
  | atom
  deriving DecidableEq, Repr

namespace Strength

/-- All levels, weakest first. -/
def all : List Strength :=
  [aliased, or, and, not, predicate, additive, multiplicative, unary, atom]

/-- The level as a number, weakest lowest. -/
def rank : Strength → Nat
  | aliased => 0
  | or => 1
  | and => 2
  | not => 3
  | predicate => 4
  | additive => 5
  | multiplicative => 6
  | unary => 7
  | atom => 8

instance : LT Strength := ⟨fun a b => a.rank < b.rank⟩
instance : LE Strength := ⟨fun a b => a.rank ≤ b.rank⟩
instance (a b : Strength) : Decidable (a < b) := inferInstanceAs (Decidable (a.rank < b.rank))
instance (a b : Strength) : Decidable (a ≤ b) := inferInstanceAs (Decidable (a.rank ≤ b.rank))

theorem lt_iff_rank {a b : Strength} : a < b ↔ a.rank < b.rank := Iff.rfl

theorem le_iff_rank {a b : Strength} : a ≤ b ↔ a.rank ≤ b.rank := Iff.rfl

/-- The name of the level. -/
def name : Strength → String
  | aliased => "Alias"
  | or => "Or"
  | and => "And"
  | not => "Not"
  | predicate => "Predicate"
  | additive => "Additive"
  | multiplicative => "Multiplicative"
  | unary => "Unary"
  | atom => "Atom"

end Strength

/-- Where an operand stands. -/
inductive Side
  /-- On the left, or behind an operator that stands in front. -/
  | left
  /-- On the right of an operator that groups to the left. -/
  | right
  /-- On either side of an operator that does not group. -/
  | strict
  /-- Where the same operator may follow without a change of meaning. -/
  | chained
  deriving DecidableEq, Repr

/-- An operand of strength `child` needs parentheses at a place where an operator of strength
`parent` holds it: always when it binds more weakly, and on the right or in a strict place also
when it binds equally. -/
def needsParentheses (parent child : Strength) : Side → Bool
  | .left | .chained => child < parent
  | .right | .strict => child ≤ parent

end PersistenceQuery
