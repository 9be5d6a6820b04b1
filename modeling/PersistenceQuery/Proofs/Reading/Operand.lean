import PersistenceQuery.Proofs.Reading.Descent
import PersistenceQuery.Proofs.Reading.Readable

/-!
# Operands and their parentheses

An operand that is read at its own strength is read in its place, with parentheses or without.

## Main results

* `Reads.operand_left`, `Reads.operand_strict` — at which level an operand is read.
* `Readable.exists_rendered_reading` — an expression that is read at its own strength is written,
  and its text is read in this way alone.
-/

namespace PersistenceQuery

variable {G : Grammar} {parent : Strength} {side : Side} {e e' : Expr}

/-- A readable expression may stand where an expression of any strength may. -/
theorem Readable.or_le_strength (h : Readable G e) : .or ≤ e.strength := by
  induction h with
  | arithmetic op _ _ _ _ =>
    rw [Expr.strength]
    cases op <;> decide
  | @logical op es _ ih =>
    rw [Expr.strength]
    rcases es with _ | ⟨e, _ | ⟨f, es⟩⟩
    · rw [LogicalOp.strengthOver_nil]
      decide
    · exact ih e List.mem_cons_self
    · rw [LogicalOp.strengthOver_cons_cons]
      cases op <;> decide
  | _ =>
    rw [Expr.strength]
    decide

/-- Parentheses or not, an operand is read at the level of its operator. -/
theorem Reads.operand_left (parent : Strength) (hside : side = .left ∨ side = .chained)
    (h : Reads G (.level e.strength) e.tokens [e']) (hor : G.outer ≤ e.strength) :
    Reads G (.level parent) (e.operandTokens parent side) [e'] := by
  have hneeds : needsParentheses parent e.strength side = decide (e.strength < parent) := by
    rcases hside with rfl | rfl <;> rfl
  rw [Expr.operandTokens, hneeds]
  split
  · exact (Reads.group (h.weaken hor)).weaken parent.le_atom
  · next hlt =>
    rw [decide_eq_true_eq] at hlt
    exact h.weaken (Strength.le_of_not_lt hlt)

/-- Where the operator does not group, the operand is read at the next level. -/
theorem Reads.operand_strict (parent : Strength) (hside : side = .right ∨ side = .strict)
    (h : Reads G (.level e.strength) e.tokens [e']) (hor : G.outer ≤ e.strength) :
    Reads G (.level parent.next) (e.operandTokens parent side) [e'] := by
  have hneeds : needsParentheses parent e.strength side = decide (e.strength ≤ parent) := by
    rcases hside with rfl | rfl <;> rfl
  rw [Expr.operandTokens, hneeds]
  split
  · exact (Reads.group (h.weaken hor)).weaken parent.next.le_atom
  · next hle =>
    rw [decide_eq_true_eq] at hle
    exact h.weaken (Strength.next_le_of_lt (Strength.lt_of_not_le hle))

/-- Where operands may go on, one of the same strength has no parentheses. -/
theorem Expr.operandTokens_of_eq (hside : side = .left ∨ side = .chained)
    (h : e.strength = parent) : e.operandTokens parent side = e.tokens := by
  rw [operandTokens, h]
  rcases hside with rfl | rfl
  all_goals exact if_neg (by rw [needsParentheses, decide_eq_true_eq]; exact Nat.lt_irrefl _)

/-- On the left, an operand of another strength is read at the next level. -/
theorem Reads.operand_left_of_ne (h : Reads G (.level e.strength) e.tokens [e'])
    (hne : e.strength ≠ parent) (hor : G.outer ≤ e.strength) :
    Reads G (.level parent.next) (e.operandTokens parent .left) [e'] := by
  rw [Expr.operandTokens]
  split
  · exact (Reads.group (h.weaken hor)).weaken parent.next.le_atom
  · next hlt =>
    rw [needsParentheses, decide_eq_true_eq] at hlt
    have hle := Strength.le_of_not_lt hlt
    exact h.weaken (Strength.next_le_of_lt (Strength.lt_of_le_of_ne hle hne.symm))

/-! ### The text of an expression -/

/-- What is read at the strength of an expression is the one reading of its text. -/
theorem Readable.exists_rendered_reading (h : Readable G e) {b : Binder}
    (hbound : ∀ s v, Expr.parameter s v ∈ e.nodes → (b.valueFor s v).isSome = true)
    (hread : Reads G (.level e.strength) e.tokens [e']) (hor : G.outer ≤ e.strength) :
    ∃ r, (Part.expr e).render .standard b = .ok r ∧ ∀ f, Reading G r.text f ↔ f = e' := by
  obtain ⟨r, hr, hlexemes⟩ := h.exists_rendered hbound hread.ne_nil
  have htext : Reading G r.text e' := by
    rw [Reading, hlexemes]
    exact hread.weaken hor
  refine ⟨r, hr, ?_⟩
  intro f
  constructor
  · intro hf
    exact hf.unique htext
  · rintro rfl
    exact htext

end PersistenceQuery
