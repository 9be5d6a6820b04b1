import Mathlib.Data.List.Basic
import PersistenceQuery.Proofs.Reading.Integer

/-!
# Values that tell an expression from its text

Where every path occurs once, the operands of an expression may be given their values one by one.
If a product has on its right a product that begins with a quotient, there are values for which
the expression and what is read of its text differ.

## Main definitions

* `Forced` — what holds by the values of some paths alone.

## Main results

* `IsArithmetic.exists_calm` — an expression takes every value, with divisors that are one.
* `IsArithmetic.exists_ne` — some values tell the expression from what is read.
* `IsArithmetic.eval_reading` — **when the text means what the expression means.**
-/

namespace PersistenceQuery

/-! ### Choosing values -/

/-- Some values of the paths are enough for the property, whatever the others are. -/
def Forced (ps : List Path) (P : (Path → Int) → Prop) : Prop :=
  ∃ ρ : Path → Int, ∀ σ, (∀ p ∈ ps, σ p = ρ p) → P σ

namespace Forced

variable {ps qs : List Path} {P Q : (Path → Int) → Prop}

theorem imp (h : Forced ps P) (himp : ∀ σ, P σ → Q σ) : Forced ps Q := by
  obtain ⟨ρ, hρ⟩ := h
  exact ⟨ρ, fun σ hσ => himp σ (hρ σ hσ)⟩

theorem exists_values (h : Forced ps P) : ∃ ρ, P ρ := by
  obtain ⟨ρ, hρ⟩ := h
  exact ⟨ρ, hρ ρ fun _ _ => rfl⟩

/-- Different paths get their values independently. -/
theorem and (hp : Forced ps P) (hq : Forced qs Q) (hdisjoint : List.Disjoint ps qs) :
    Forced (ps ++ qs) fun σ => P σ ∧ Q σ := by
  obtain ⟨ρ, hρ⟩ := hp
  obtain ⟨τ, hτ⟩ := hq
  refine ⟨fun p => if p ∈ ps then ρ p else τ p, ?_⟩
  intro σ hσ
  constructor
  · refine hρ σ ?_
    intro p hp
    exact (hσ p (List.mem_append_left _ hp)).trans (if_pos hp)
  · refine hτ σ ?_
    intro p hp
    exact (hσ p (List.mem_append_right _ hp)).trans (if_neg fun hmem => hdisjoint hmem hp)

end Forced

namespace IsArithmetic

open PersistenceQuery.Expr (graft graft_arithmetic)

variable {e : Expr}

/-- An expression takes every value, and its divisors may all be one. -/
theorem exists_calm (h : IsArithmetic e) (hnodup : e.paths.Nodup) (n : Int) :
    Forced e.paths fun σ => e.Calm σ ∧ e.eval σ = some n := by
  induction h generalizing n with
  | @path p _ =>
    refine ⟨fun _ => n, fun σ hσ => ⟨trivial, ?_⟩⟩
    rw [Expr.eval, hσ p (List.mem_singleton.2 rfl)]
  | negate _ ih =>
    refine (ih hnodup (-n)).imp fun σ hσ => ⟨hσ.1, ?_⟩
    rw [Expr.eval, hσ.2, Option.map_some, Int.neg_neg]
  | arithmetic op _ _ ihl ihr =>
    obtain ⟨hl, hr, hdisjoint⟩ := List.nodup_append'.1 hnodup
    -- the left operand alone makes the value
    refine ((ihl hl n).and (ihr hr op.neutral) hdisjoint).imp ?_
    rintro σ ⟨⟨hcalml, hevall⟩, hcalmr, hevalr⟩
    refine ⟨⟨hcalml, hcalmr, ?_⟩, ?_⟩
    · intro hdiv
      rw [hevalr, hdiv]
      rfl
    · rw [Expr.eval, hevall, hevalr]
      exact op.apply_neutral n

/-- A product that begins with a quotient may be one, and three once it is doubled from the left:
the dividend is three and its divisor two. -/
theorem exists_doubled (h : IsArithmetic e) (hnodup : e.paths.Nodup)
    (hbegins : e.beginsWithQuotient = true) :
    Forced e.paths fun σ => e.eval σ = some 1 ∧
      ∀ l : Expr, l.eval σ = some 2 → (graft .mul l e.leftward).eval σ = some 3 := by
  induction h with
  | path _ => cases hbegins
  | negate _ _ => cases hbegins
  | @arithmetic op a b ha hb iha _ =>
    obtain ⟨hnodupa, hnodupb, hdisjoint⟩ := List.nodup_append'.1 hnodup
    cases op with
    | add => cases hbegins
    | sub => cases hbegins
    | div =>
      have hcalm := (ha.exists_calm hnodupa 3).and (hb.exists_calm hnodupb 2) hdisjoint
      refine hcalm.imp ?_
      rintro σ ⟨⟨hcalma, hevala⟩, hcalmb, hevalb⟩
      obtain ⟨hexacta, hreada⟩ := ha.eval_leftward_of_calm hcalma
      have hreadb := (hb.eval_leftward_of_calm hcalmb).2
      refine ⟨?_, ?_⟩
      · rw [Expr.eval, hevala, hevalb]
        rfl
      · intro l hl
        have hgraft : graft .mul l (.arithmetic .div a.leftward b.leftward)
            = .arithmetic .div (graft .mul l a.leftward) b.leftward := rfl
        -- the dividend is six
        rw [Expr.leftward, if_neg (ArithmeticOp.rightSide_ne_chained rfl b), hgraft, Expr.eval,
          ha.leftward.eval_graft_mul hexacta, Expr.eval, hl, hreada, hevala, hreadb, hevalb]
        rfl
    | mul =>
      have hforced := (iha hnodupa hbegins).and (hb.exists_calm hnodupb 1) hdisjoint
      refine hforced.imp ?_
      rintro σ ⟨⟨hevala, hgrafta⟩, hcalmb, hevalb⟩
      obtain ⟨hexactb, hreadb⟩ := hb.eval_leftward_of_calm hcalmb
      refine ⟨?_, ?_⟩
      · rw [Expr.eval, hevala, hevalb]
        rfl
      · intro l hl
        have htimes : (Expr.arithmetic .mul (graft .mul l a.leftward) b.leftward).eval σ
            = some 3 := by
          rw [Expr.eval, hgrafta l hl, hreadb, hevalb]
          rfl
        rw [Expr.leftward]
        split
        · rw [hb.leftward.graft_graft rfl, hb.leftward.eval_graft_mul hexactb, htimes]
        · exact htimes

end IsArithmetic

/-- A left operand that keeps two different values of the right one apart. -/
theorem ArithmeticOp.exists_left (op : ArithmeticOp) {n : Int} {x : Option Int} (hn : n ≠ 0)
    (hx : x ≠ some n) :
    ∃ m k, k ≠ 0 ∧ op.apply m n = some k ∧ x.bind (op.apply m) ≠ some k ∧
      (op = .mul → m = 1) := by
  cases op with
  | add =>
    refine ⟨0, n, hn, by simp [apply], ?_, by decide⟩
    cases x <;> simp_all [apply]
  | sub =>
    refine ⟨0, -n, by omega, by simp [apply], ?_, by decide⟩
    cases x <;> simp_all [apply]
  | mul =>
    refine ⟨1, n, hn, by simp [apply], ?_, fun _ => rfl⟩
    cases x <;> simp_all [apply]
  | div =>
    have hself : div.apply n n = some 1 := by simp [apply, hn, Int.tdiv_self]
    cases x with
    | none => exact ⟨n, 1, by decide, hself, by simp, by simp⟩
    | some z =>
      by_cases hz : z = 0
      · -- what is read has no value
        refine ⟨n, 1, by decide, hself, ?_, by simp⟩
        simp [apply, hz]
      · have hne : z ≠ n := fun heq => hx (heq ▸ rfl)
        refine ⟨n * z, z, hz, ?_, ?_, by simp⟩
        · simp [apply, hn, Int.mul_tdiv_cancel_left]
        · simp [apply, hz, Int.mul_tdiv_cancel, Ne.symm hne]

namespace IsArithmetic

variable {e : Expr}

/-- If a quotient is not kept, some values of the paths tell the expression from what is read. -/
theorem exists_ne (h : IsArithmetic e) (hnodup : e.paths.Nodup)
    (hkeeps : e.keepsQuotients = false) :
    ∃ n x, n ≠ 0 ∧ x ≠ some n ∧
      Forced e.paths fun σ => e.eval σ = some n ∧ e.leftward.eval σ = x := by
  induction h with
  | path _ => cases hkeeps
  | negate _ ih =>
    obtain ⟨n, x, hn, hx, hforced⟩ := ih hnodup hkeeps
    refine ⟨-n, x.map fun m => -m, by omega, ?_, hforced.imp fun σ hσ => ⟨?_, ?_⟩⟩
    · cases x <;> simp_all
    · rw [Expr.eval, hσ.1, Option.map_some]
    · rw [Expr.leftward, Expr.eval, hσ.2]
  | @arithmetic op l r hl hr ihl ihr =>
    obtain ⟨hnodupl, hnodupr, hdisjoint⟩ := List.nodup_append'.1 hnodup
    cases hkeepsl : l.keepsQuotients with
    | false =>
      -- the right operand changes nothing
      obtain ⟨n, x, hn, hx, hforced⟩ := ihl hnodupl hkeepsl
      have hboth := hforced.and (hr.exists_calm hnodupr op.neutral) hdisjoint
      refine ⟨n, x, hn, hx, hboth.imp ?_⟩
      rintro σ ⟨⟨hevall, hreadl⟩, hcalmr, hevalr⟩
      obtain ⟨hexactr, hreadr⟩ := hr.eval_leftward_of_calm hcalmr
      refine ⟨?_, ?_⟩
      · rw [Expr.eval, hevall, hevalr]
        exact op.apply_neutral n
      · rw [Expr.eval_leftward_arithmetic hr (fun _ _ => .inl hexactr), Expr.eval, hreadl, hreadr,
          hevalr]
        cases x with
        | none => rfl
        | some m => exact op.apply_neutral m
    | true => cases hkeepsr : r.keepsQuotients with
      | false =>
        obtain ⟨n, x, hn, hx, hforced⟩ := ihr hnodupr hkeepsr
        obtain ⟨m, k, hk, happly, hne, hone⟩ := op.exists_left hn hx
        have hboth := (hl.exists_calm hnodupl m).and hforced hdisjoint
        refine ⟨k, x.bind (op.apply m), hk, hne, hboth.imp ?_⟩
        rintro σ ⟨⟨hcalml, hevall⟩, hevalr, hreadr⟩
        have hreadl := (hl.eval_leftward_of_calm hcalml).2.trans hevall
        have hexact : op = .mul → op.rightSide r = .chained →
            r.leftward.Exact σ ∨ l.leftward.eval σ = some 1 :=
          fun hmul _ => .inr (hone hmul ▸ hreadl)
        refine ⟨?_, ?_⟩
        · rw [Expr.eval, hevall, hevalr]
          exact happly
        · rw [Expr.eval_leftward_arithmetic hr hexact, Expr.eval, hreadl, hreadr]
          rfl
      | true =>
        -- neither operand: it is the product itself
        have hproduct : op = .mul ∧ r.isProduct = true ∧ r.beginsWithQuotient = true := by
          simpa [Expr.keepsQuotients, hkeepsl, hkeepsr, and_assoc] using hkeeps
        obtain ⟨rfl, hproduct, hbegins⟩ := hproduct
        have hboth := (hl.exists_calm hnodupl 2).and (hr.exists_doubled hnodupr hbegins) hdisjoint
        refine ⟨2, some 3, by decide, by decide, hboth.imp ?_⟩
        rintro σ ⟨⟨hcalml, hevall⟩, hevalr, hgraft⟩
        have hreadl := (hl.eval_leftward_of_calm hcalml).2.trans hevall
        refine ⟨?_, ?_⟩
        · rw [Expr.eval, hevall, hevalr]
          rfl
        · rw [Expr.leftward, if_pos (ArithmeticOp.rightSide_mul.2 hproduct)]
          exact hgraft _ hreadl

/-- The text of an expression means what the expression means if its quotients are kept.  Where
every path occurs once, it does not otherwise. -/
theorem eval_reading (h : IsArithmetic e) (b : Binder) :
    ∃ r f, (Part.expr e).render .standard b = .ok r ∧
      (∀ g, Reading .arithmetic r.text g ↔ g = f) ∧
      (e.keepsQuotients = true → ∀ ρ n, e.eval ρ = some n → f.eval ρ = some n) ∧
      (e.paths.Nodup → (∀ ρ n, e.eval ρ = some n → f.eval ρ = some n) →
        e.keepsQuotients = true) := by
  obtain ⟨r, hr, hread⟩ := h.exists_rendered_reading b
  refine ⟨r, e.leftward, hr, hread, ?_, ?_⟩
  · intro hkeeps ρ n hn
    rw [h.eval_leftward hkeeps]
    exact hn
  · intro hnodup hsame
    cases hkeeps : e.keepsQuotients with
    | true => rfl
    | false =>
      obtain ⟨n, x, -, hx, hforced⟩ := h.exists_ne hnodup hkeeps
      obtain ⟨ρ, hn, hreads⟩ := hforced.exists_values
      exact absurd (hreads.symm.trans (hsame ρ n hn)) hx

end IsArithmetic

/-- The gross price of some articles, less a share of it. -/
def netPrice : Expr :=
  .arithmetic .mul (.arithmetic .sub (.path ⟨["b", "price"]⟩) (.path ⟨["b", "discount"]⟩))
    (.arithmetic .mul (.path ⟨["b", "amount"]⟩)
      (.arithmetic .div (.path ⟨["b", "share"]⟩) (.path ⟨["b", "parts"]⟩)))

theorem eval_reading_netPrice :
    ∃ r f, (Part.expr netPrice).render .standard (.start .inline none) = .ok r ∧
      (∀ g, Reading .arithmetic r.text g ↔ g = f) ∧
      ∀ ρ n, netPrice.eval ρ = some n → f.eval ρ = some n := by
  have hpath : ∀ s, isParameterName s = true → IsArithmetic (.path ⟨["b", s]⟩) := fun s hs =>
    .path ⟨List.cons_ne_nil _ _, by simpa [Grammar.isName] using ⟨by decide, hs⟩⟩
  have h : IsArithmetic netPrice :=
    .arithmetic _ (.arithmetic _ (hpath _ (by decide)) (hpath _ (by decide)))
      (.arithmetic _ (hpath _ (by decide))
        (.arithmetic _ (hpath _ (by decide)) (hpath _ (by decide))))
  obtain ⟨r, f, hr, hread, hkeeps, -⟩ := h.eval_reading (.start .inline none)
  exact ⟨r, f, hr, hread, hkeeps (by decide)⟩

/-- A product whose right factor begins with a quotient. -/
def scaledShare : Expr :=
  .arithmetic .mul (.path ⟨["a"]⟩)
    (.arithmetic .mul (.arithmetic .div (.path ⟨["b"]⟩) (.path ⟨["c"]⟩)) (.path ⟨["d"]⟩))

/-- Two times a half is nothing, rounded; what is read is two halves. -/
theorem eval_scaledShare_ne :
    ∃ r f, (Part.expr scaledShare).render .standard (.start .inline none) = .ok r ∧
      r.text = "a * b / c * d" ∧ Reading .arithmetic r.text f ∧
      ∃ ρ : Path → Int, scaledShare.eval ρ = some 0 ∧ f.eval ρ = some 1 := by
  have h : IsArithmetic scaledShare :=
    .arithmetic _ (.path (by decide))
      (.arithmetic _ (.arithmetic _ (.path (by decide)) (.path (by decide))) (.path (by decide)))
  obtain ⟨r, hr, hread⟩ := h.exists_rendered_reading (.start .inline none)
  have htext : ((Part.expr scaledShare).render .standard (.start .inline none)).toOption.map
      Rendered.text = some "a * b / c * d" := by decide +kernel
  rw [hr] at htext
  refine ⟨r, _, hr, Option.some.inj htext, (hread _).2 rfl,
    fun p => if p = ⟨["a"]⟩ ∨ p = ⟨["c"]⟩ then 2 else 1, ?_, ?_⟩ <;> decide +kernel

end PersistenceQuery
