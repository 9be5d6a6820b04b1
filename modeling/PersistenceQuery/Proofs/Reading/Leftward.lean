import PersistenceQuery.Proofs.Reading.Operand

/-!
# How arithmetic is read

Paths, the minus sign and the four operators, read by the rules of arithmetic alone.  What is read
of a written expression is a function of the expression: where the parentheses around the right
operand of a sum or product are left out, the whole left part joins its first operand.

## Main definitions

* `IsArithmetic` — the expressions.
* `Expr.graft` — an operand in front of the first operand of a sum or product.
* `Expr.leftward` — what is read of an expression.

## Main results

* `IsArithmetic.joins` — an expression is read as `Expr.leftward` says, also behind an operand.
* `IsArithmetic.exists_rendered_reading` — so is its text, and in no other way.
-/

namespace PersistenceQuery

/-- Paths, put together by the minus sign and the operators of arithmetic. -/
inductive IsArithmetic : Expr → Prop
  | path {p : Path} (h : p.IsReadable .arithmetic) : IsArithmetic (.path p)
  | negate {e : Expr} (h : IsArithmetic e) : IsArithmetic (.negate e)
  | arithmetic (op : ArithmeticOp) {l r : Expr} (hl : IsArithmetic l) (hr : IsArithmetic r) :
    IsArithmetic (.arithmetic op l r)

namespace IsArithmetic

variable {e : Expr}

theorem readable (h : IsArithmetic e) : Readable .arithmetic e := by
  induction h with
  | path h => exact .path h
  | negate _ ih => exact .negate ih
  | arithmetic op _ _ ihl ihr => exact .arithmetic op ihl ihr

theorem parameter_notMem_nodes (h : IsArithmetic e) (s : String) (v : Option Value) :
    Expr.parameter s v ∉ e.nodes := by
  induction h with
  | path _ => simp [Expr.nodes]
  | negate _ ih => simpa [Expr.nodes] using ih
  | arithmetic _ _ _ ihl ihr => simpa [Expr.nodes] using ⟨ihl, ihr⟩

theorem outer_le_strength (h : IsArithmetic e) : Grammar.arithmetic.outer ≤ e.strength := by
  cases h with
  | arithmetic op _ _ =>
    rw [Expr.strength]
    cases op <;> decide
  | _ =>
    rw [Expr.strength]
    decide

end IsArithmetic

/-! ### What is read -/

namespace Expr

/-- `l` in front of the first operand of a sum or product, behind it otherwise. -/
def graft (op : ArithmeticOp) (l : Expr) : Expr → Expr
  | .arithmetic inner a b =>
    if inner.strength = op.strength then .arithmetic inner (graft op l a) b
    else .arithmetic op l (.arithmetic inner a b)
  | r => .arithmetic op l r

/-- The expression that is read where this one is written. -/
def leftward : Expr → Expr
  | .negate e => .negate e.leftward
  | .arithmetic op l r =>
    if op.rightSide r = .chained then graft op l.leftward r.leftward
    else .arithmetic op l.leftward r.leftward
  | e => e

theorem graft_arithmetic {op inner : ArithmeticOp} (h : inner.strength = op.strength)
    (l a b : Expr) :
    graft op l (.arithmetic inner a b) = .arithmetic inner (graft op l a) b := if_pos h

/-- An operand of another strength is not taken apart. -/
theorem graft_of_ne {op : ArithmeticOp} {r : Expr} (h : r.strength ≠ op.strength) (l : Expr) :
    graft op l r = .arithmetic op l r := by
  cases r with
  | arithmetic inner a b => exact if_neg h
  | _ => rfl

theorem strength_graft (op : ArithmeticOp) (l r : Expr) :
    (graft op l r).strength = op.strength := by
  cases r with
  | arithmetic inner a b =>
    by_cases h : inner.strength = op.strength
    · rw [graft_arithmetic h]
      exact h
    · rw [graft, if_neg h]
      rfl
  | _ => rfl

theorem strength_leftward (e : Expr) : e.leftward.strength = e.strength := by
  cases e with
  | arithmetic op l r =>
    rw [leftward]
    split
    · exact strength_graft _ _ _
    · rfl
  | _ => rfl

end Expr

namespace IsArithmetic

open PersistenceQuery.Expr (graft graft_arithmetic graft_of_ne)

variable {e : Expr}

theorem grafted (h : IsArithmetic e) (op : ArithmeticOp) {l : Expr} (hl : IsArithmetic l) :
    IsArithmetic (graft op l e) := by
  induction h with
  | path h => exact .arithmetic op hl (.path h)
  | negate h _ => exact .arithmetic op hl (.negate h)
  | arithmetic inner ha hb iha _ =>
    rw [graft]
    split
    · exact .arithmetic inner iha hb
    · exact .arithmetic op hl (.arithmetic inner ha hb)

theorem leftward (h : IsArithmetic e) : IsArithmetic e.leftward := by
  induction h with
  | path h => exact .path h
  | negate _ ih => exact .negate ih
  | arithmetic op _ _ ihl ihr =>
    rw [Expr.leftward]
    split
    · exact ihr.grafted op ihl
    · exact .arithmetic op ihl ihr

/-- What joins the first operand joins it again. -/
theorem graft_graft (h : IsArithmetic e) {op inner : ArithmeticOp}
    (hop : inner.strength = op.strength) (l a : Expr) :
    graft op l (graft inner a e) = graft inner (graft op l a) e := by
  induction h with
  | path _ => exact graft_arithmetic hop l a _
  | negate _ _ => exact graft_arithmetic hop l a _
  | @arithmetic third b c _ _ ihb _ =>
    -- both go down the left operands as far as the strength is the same
    by_cases hthird : third.strength = inner.strength
    · rw [graft_arithmetic hthird, graft_arithmetic (hthird.trans hop), ihb,
        graft_arithmetic hthird]
    · have hne : (Expr.arithmetic third b c).strength ≠ inner.strength := hthird
      rw [graft_of_ne hne, graft_of_ne hne, graft_arithmetic hop]

end IsArithmetic

/-! ### Expressions -/

/-- The expression is read, and behind another operand that it may follow it joins that operand. -/
def Expr.Joins (e : Expr) : Prop :=
  Reads .arithmetic (.level e.strength) e.tokens [e.leftward] ∧
    ∀ {op : ArithmeticOp} {ts : List Lexeme} {l : Expr}, e.strength = op.strength →
      Reads .arithmetic (.level op.strength) ts [l] →
      Reads .arithmetic (.level op.strength) (ts ++ .sign op.symbol :: e.tokens)
        [graft op l e.leftward]

namespace Expr.Joins

variable {e l : Expr} {op : ArithmeticOp} {ts : List Lexeme}

/-- The left operand of a sum joins what is in front of the sum. -/
theorem left {inner : ArithmeticOp} (h : e.Joins) (hor : Grammar.arithmetic.outer ≤ e.strength)
    (hop : inner.strength = op.strength) (hl : Reads .arithmetic (.level op.strength) ts [l]) :
    Reads .arithmetic (.level op.strength)
      (ts ++ .sign op.symbol :: e.operandTokens inner.strength .left) [graft op l e.leftward] := by
  by_cases heq : e.strength = op.strength
  · rw [operandTokens_of_eq (.inl rfl) (heq.trans hop.symm)]
    exact h.2 heq hl
  · rw [graft_of_ne (e.strength_leftward ▸ heq), hop]
    exact .arithmetic hl (h.1.operand_left_of_ne heq hor)

/-- The right operand is read, whatever the left one is. -/
theorem right (h : e.Joins) (hor : Grammar.arithmetic.outer ≤ e.strength)
    (hl : Reads .arithmetic (.level op.strength) ts [l]) :
    Reads .arithmetic (.level op.strength)
      (ts ++ .sign op.symbol :: e.operandTokens op.strength (op.rightSide e))
      [if op.rightSide e = .chained then graft op l e.leftward
        else .arithmetic op l e.leftward] := by
  rcases op.rightSide_cases e with ⟨hside, -⟩ | hside
  · have heq := ArithmeticOp.strength_of_rightSide hside
    rw [hside, if_pos rfl, operandTokens_of_eq (.inr rfl) heq]
    exact h.2 heq hl
  · rw [hside, if_neg (by decide)]
    exact .arithmetic hl (h.1.operand_strict _ (.inl rfl) hor)

end Expr.Joins

namespace IsArithmetic

variable {e : Expr}

theorem joins (h : IsArithmetic e) : e.Joins := by
  induction h with
  | path h =>
    -- an atom has another strength than an operator
    rw [Expr.Joins, Expr.tokens_path h]
    refine ⟨.path h, ?_⟩
    intro op _ _ hop _
    cases op <;> cases hop
  | @negate e h ih =>
    have hvalue := ih.1.operand_strict .unary (.inr rfl) h.outer_le_strength
    rw [Expr.Joins, Expr.tokens_negate h.readable.isNegativeLiteral_eq_false]
    refine ⟨.negate hvalue, ?_⟩
    intro op _ _ hop _
    cases op <;> cases hop
  | @arithmetic inner a b ha hb iha ihb =>
    have hleft := iha.1.operand_left inner.strength (.inl rfl) ha.outer_le_strength
    rw [Expr.Joins, Expr.tokens_arithmetic, Expr.leftward]
    refine ⟨ihb.right hb.outer_le_strength hleft, ?_⟩
    intro op ts l hop hl
    have hop : inner.strength = op.strength := hop
    -- what is in front joins the left operand, and the right operand follows as before
    have hjoined := iha.left ha.outer_le_strength hop hl
    rw [← hop] at hjoined
    have hread := ihb.right hb.outer_le_strength hjoined
    rw [hop, List.append_assoc] at hread
    rw [hop]
    split
    · next hside =>
      rw [if_pos hside] at hread
      rw [hb.leftward.graft_graft hop]
      exact hread
    · next hside =>
      rw [if_neg hside] at hread
      rw [Expr.graft_arithmetic hop]
      exact hread

/-- The text of an expression is read as `Expr.leftward` says, and in no other way. -/
theorem exists_rendered_reading (h : IsArithmetic e) (b : Binder) :
    ∃ r, (Part.expr e).render .standard b = .ok r ∧
      ∀ f, Reading .arithmetic r.text f ↔ f = e.leftward := by
  refine h.readable.exists_rendered_reading ?_ h.joins.1 h.outer_le_strength
  intro s v hs
  exact absurd hs (h.parameter_notMem_nodes s v)

end IsArithmetic

end PersistenceQuery
