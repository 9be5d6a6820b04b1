import PersistenceQuery.Proofs.Reading.Leftward

/-!
# The integers that are meant and read

An arithmetic expression over integers has a value, and so has what is read of its text.  They are
the same unless a product has on its right another product that begins with a quotient: its
parentheses are left out, and the quotient gets another dividend.

## Main definitions

* `Expr.eval` — the value of an expression, where nothing is divided by zero.
* `Expr.keepsQuotients` — no product has on its right a product that begins with a quotient.
* `Expr.Exact`, `Expr.Calm` — some divisors, or all, are one.

## Main results

* `IsArithmetic.eval_leftward` — if quotients are kept, what is read has the same value.
* `IsArithmetic.eval_leftward_of_calm` — so it has if every divisor is one.
-/

namespace PersistenceQuery

/-! ### Values -/

namespace ArithmeticOp

/-- The result of an operation; quotients are rounded towards zero, and there are none by zero. -/
def apply : ArithmeticOp → Int → Int → Option Int
  | add, m, n => some (m + n)
  | sub, m, n => some (m - n)
  | mul, m, n => some (m * n)
  | div, m, n => if n = 0 then none else some (m.tdiv n)

/-- The right operand that changes nothing. -/
def neutral : ArithmeticOp → Int
  | add | sub => 0
  | mul | div => 1

theorem apply_neutral (op : ArithmeticOp) (m : Int) : op.apply m op.neutral = some m := by
  cases op <;> simp [apply, neutral]

end ArithmeticOp

namespace Expr

/-- The value of an arithmetic expression, if nothing is divided by zero. -/
def eval (ρ : Path → Int) : Expr → Option Int
  | .path p => some (ρ p)
  | .negate e => (e.eval ρ).map fun n => -n
  | .arithmetic op l r => (l.eval ρ).bind fun m => (r.eval ρ).bind fun n => op.apply m n
  | _ => none

/-- The paths of an arithmetic expression, from left to right. -/
def paths : Expr → List Path
  | .path p => [p]
  | .negate e => e.paths
  | .arithmetic _ l r => l.paths ++ r.paths
  | _ => []

/-- A product, outermost. -/
def isProduct : Expr → Bool
  | .arithmetic .mul _ _ => true
  | _ => false

/-- Going from left operand to left operand of products, there is a quotient. -/
def beginsWithQuotient : Expr → Bool
  | .arithmetic .div _ _ => true
  | .arithmetic .mul l _ => l.beginsWithQuotient
  | _ => false

/-- No product has on its right a product that begins with a quotient. -/
def keepsQuotients : Expr → Bool
  | .negate e => e.keepsQuotients
  | .arithmetic op l r => l.keepsQuotients && r.keepsQuotients &&
    !(op == .mul && r.isProduct && r.beginsWithQuotient)
  | _ => true

/-- The divisors on the way down the left operands of a product are one. -/
def Exact (ρ : Path → Int) : Expr → Prop
  | .arithmetic .div l r => l.Exact ρ ∧ r.eval ρ = some 1
  | .arithmetic .mul l _ => l.Exact ρ
  | _ => True

/-- Every divisor is one. -/
def Calm (ρ : Path → Int) : Expr → Prop
  | .negate e => e.Calm ρ
  | .arithmetic op l r => l.Calm ρ ∧ r.Calm ρ ∧ (op = .div → r.eval ρ = some 1)
  | _ => True

end Expr

/-! ### What is read has the same value -/

namespace IsArithmetic

open PersistenceQuery.Expr (graft graft_arithmetic)

variable {e : Expr} {ρ : Path → Int}

/-- Sums may group either way. -/
theorem eval_graft_add (h : IsArithmetic e) (l : Expr) :
    (graft .add l e).eval ρ = (Expr.arithmetic .add l e).eval ρ := by
  induction h with
  | @arithmetic inner a b _ _ iha _ =>
    cases inner with
    | add =>
      rw [graft_arithmetic rfl, Expr.eval, iha]
      simp only [Expr.eval]
      cases l.eval ρ <;> cases a.eval ρ <;> cases b.eval ρ <;>
        simp [ArithmeticOp.apply, Int.add_assoc]
    | sub =>
      -- l + (a - b) is (l + a) - b
      have hgraft : graft .add l (.arithmetic .sub a b) = .arithmetic .sub (graft .add l a) b := rfl
      rw [hgraft, Expr.eval, iha]
      simp only [Expr.eval]
      cases l.eval ρ <;> cases a.eval ρ <;> cases b.eval ρ <;>
        simp [ArithmeticOp.apply, Int.add_sub_assoc]
    | mul => rfl
    | div => rfl
  | _ => rfl

/-- Products may group to the left where divisors are one. -/
theorem eval_graft_mul (h : IsArithmetic e) (hexact : e.Exact ρ) (l : Expr) :
    (graft .mul l e).eval ρ = (Expr.arithmetic .mul l e).eval ρ := by
  induction h with
  | @arithmetic inner a b _ _ iha _ =>
    cases inner with
    | mul =>
      rw [graft_arithmetic rfl, Expr.eval, iha hexact]
      simp only [Expr.eval]
      cases l.eval ρ <;> cases a.eval ρ <;> cases b.eval ρ <;>
        simp [ArithmeticOp.apply, Int.mul_assoc]
    | div =>
      -- where b is one, l * (a / b) is (l * a) / b
      have hgraft : graft .mul l (.arithmetic .div a b) = .arithmetic .div (graft .mul l a) b := rfl
      rw [hgraft, Expr.eval, iha hexact.1]
      simp only [Expr.eval, hexact.2]
      cases l.eval ρ <;> cases a.eval ρ <;> simp [ArithmeticOp.apply]
    | add => rfl
    | sub => rfl
  | _ => rfl

/-- So they may behind a one. -/
theorem eval_graft_mul_of_one (h : IsArithmetic e) {l : Expr} (hl : l.eval ρ = some 1) :
    (graft .mul l e).eval ρ = (Expr.arithmetic .mul l e).eval ρ := by
  have hone : ∀ f : Expr, (Expr.arithmetic .mul l f).eval ρ = f.eval ρ := fun f => by
    simp only [Expr.eval, hl]
    cases f.eval ρ <;> simp [ArithmeticOp.apply]
  induction h with
  | @arithmetic inner a b _ _ iha _ =>
    by_cases hinner : inner.strength = ArithmeticOp.mul.strength
    · rw [graft_arithmetic hinner, Expr.eval, iha, hone, hone, Expr.eval]
    · rw [graft, if_neg hinner]
  | _ => rfl

theorem exact_graft (h : IsArithmetic e) {l : Expr} (hl : l.Exact ρ) (he : e.Exact ρ) :
    (graft .mul l e).Exact ρ := by
  induction h with
  | @arithmetic inner a b _ _ iha _ =>
    cases inner with
    | mul => exact iha he
    | div => exact ⟨iha he.1, he.2⟩
    | add => exact hl
    | sub => exact hl
  | _ => exact hl

/-- What is read groups to the left; the divisors of a product have to be one for it, or what is in
front of them. -/
theorem eval_graft (h : IsArithmetic e) {op : ArithmeticOp} (hop : op.isAssociative = true)
    {l : Expr} (hexact : op = .mul → e.Exact ρ ∨ l.eval ρ = some 1) :
    (graft op l e).eval ρ = (Expr.arithmetic op l e).eval ρ := by
  cases op with
  | add => exact h.eval_graft_add l
  | mul =>
    rcases hexact rfl with hexact | hone
    · exact h.eval_graft_mul hexact l
    · exact h.eval_graft_mul_of_one hone
  | sub => cases hop
  | div => cases hop

end IsArithmetic

/-- Only products and quotients have divisors there. -/
theorem Expr.exact_of_ne {e : Expr} {ρ : Path → Int} (h : e.strength ≠ .multiplicative) :
    e.Exact ρ := by
  cases e with
  | arithmetic op l r =>
    cases op with
    | mul => exact absurd rfl h
    | div => exact absurd rfl h
    | _ => trivial
  | _ => trivial

theorem Expr.eval_arithmetic_congr {ρ : Path → Int} (op : ArithmeticOp) {l l' r r' : Expr}
    (hl : l'.eval ρ = l.eval ρ) (hr : r'.eval ρ = r.eval ρ) :
    (Expr.arithmetic op l' r').eval ρ = (Expr.arithmetic op l r).eval ρ := by
  rw [eval, eval, hl, hr]

/-- The operands are read one by one, but for the divisors of a product on the right. -/
theorem Expr.eval_leftward_arithmetic {ρ : Path → Int} {op : ArithmeticOp} {r : Expr}
    (hr : IsArithmetic r)
    {l : Expr} (hexact : op = .mul → op.rightSide r = .chained →
      r.leftward.Exact ρ ∨ l.leftward.eval ρ = some 1) :
    (Expr.arithmetic op l r).leftward.eval ρ
      = (Expr.arithmetic op l.leftward r.leftward).eval ρ := by
  rw [leftward]
  rcases op.rightSide_cases r with ⟨hside, hop⟩ | hside
  · rw [if_pos hside]
    exact hr.leftward.eval_graft hop fun hmul => hexact hmul hside
  · rw [hside, if_neg (by decide)]

/-- Behind a product, products alone stand without parentheses. -/
theorem ArithmeticOp.rightSide_mul {r : Expr} :
    ArithmeticOp.mul.rightSide r = .chained ↔ r.isProduct = true := by
  cases r with
  | arithmetic inner a b => cases inner <;> simp [rightSide, isAssociative, Expr.isProduct]
  | _ => constructor <;> intro h <;> cases h

namespace IsArithmetic

variable {e : Expr} {ρ : Path → Int}

/-- Where every divisor is one, what is read has the same value, and may be grafted. -/
theorem eval_leftward_of_calm (h : IsArithmetic e) (hcalm : e.Calm ρ) :
    e.leftward.Exact ρ ∧ e.leftward.eval ρ = e.eval ρ := by
  induction h with
  | path _ => exact ⟨trivial, rfl⟩
  | @negate e _ ih => exact ⟨trivial, congrArg (Option.map fun n => -n) (ih hcalm).2⟩
  | @arithmetic op l r hl hr ihl ihr =>
    obtain ⟨hcalml, hcalmr, hdivisor⟩ := hcalm
    obtain ⟨hexactl, hevall⟩ := ihl hcalml
    obtain ⟨hexactr, hevalr⟩ := ihr hcalmr
    refine ⟨?_, (Expr.eval_leftward_arithmetic hr fun _ _ => .inl hexactr).trans
      (Expr.eval_arithmetic_congr op hevall hevalr)⟩
    cases op with
    | mul =>
      rw [Expr.leftward]
      split
      · exact hr.leftward.exact_graft hexactl hexactr
      · exact hexactl
    | div =>
      rw [Expr.leftward, if_neg (ArithmeticOp.rightSide_ne_chained rfl r)]
      exact ⟨hexactl, hevalr.trans (hdivisor rfl)⟩
    | _ => exact Expr.exact_of_ne (by rw [Expr.strength_leftward, Expr.strength]; decide)

/-- A product that does not begin with a quotient has no divisors there when it is read. -/
theorem exact_leftward (h : IsArithmetic e) (hkeeps : e.keepsQuotients = true)
    (hbegins : e.beginsWithQuotient = false) : e.leftward.Exact ρ := by
  induction h with
  | path _ => trivial
  | negate _ _ => trivial
  | @arithmetic op l r hl hr ihl ihr =>
    simp only [Expr.keepsQuotients, Bool.and_eq_true, Bool.not_eq_true'] at hkeeps
    obtain ⟨⟨hkeepsl, hkeepsr⟩, hright⟩ := hkeeps
    cases op with
    | mul =>
      have hexactl := ihl hkeepsl hbegins
      rw [Expr.leftward]
      split
      · next hside =>
        have hbeginsr : r.beginsWithQuotient = false := by
          simpa [ArithmeticOp.rightSide_mul.1 hside] using hright
        exact hr.leftward.exact_graft hexactl (ihr hkeepsr hbeginsr)
      · exact hexactl
    | div => cases hbegins
    | _ => exact Expr.exact_of_ne (by rw [Expr.strength_leftward, Expr.strength]; decide)

/-- If quotients are kept, what is read has the value of the expression. -/
theorem eval_leftward (h : IsArithmetic e) (hkeeps : e.keepsQuotients = true) :
    e.leftward.eval ρ = e.eval ρ := by
  induction h with
  | path _ => rfl
  | negate _ ih => exact congrArg (Option.map fun n => -n) (ih hkeeps)
  | @arithmetic op l r hl hr ihl ihr =>
    simp only [Expr.keepsQuotients, Bool.and_eq_true, Bool.not_eq_true'] at hkeeps
    obtain ⟨⟨hkeepsl, hkeepsr⟩, hright⟩ := hkeeps
    refine (Expr.eval_leftward_arithmetic hr fun hmul hside => ?_).trans
      (Expr.eval_arithmetic_congr op (ihl hkeepsl) (ihr hkeepsr))
    subst hmul
    have hbegins : r.beginsWithQuotient = false := by
      simpa [ArithmeticOp.rightSide_mul.1 hside] using hright
    exact .inl (hr.exact_leftward hkeepsr hbegins)

end IsArithmetic

end PersistenceQuery
