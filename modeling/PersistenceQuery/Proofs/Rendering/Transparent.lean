import PersistenceQuery.Proofs.Query.Place
import PersistenceQuery.Proofs.Rendering.Clear

/-!
# Conjunctions and disjunctions of one operand

A conjunction or disjunction of one operand is written as that operand and binds like it, so
putting it in the place of its operand changes nothing that is written around.  There are two
exceptions: a minus sign looks for a negative literal, and a sum or a product for an operand of its
own kind on the right, and both look at the operand itself.  There a pair of parentheses comes or
goes.

## Main definitions

* `Place.Alike` — two expressions that nothing around a place tells apart.
* `Surrounds` — what is written in a place, between other emissions.
* `Place.exposes` — what stands directly around a place looks at the expression itself.
* `HasPairMore` — two lists of emissions that differ by a pair of parentheses.

## Main results

* `Place.surrounds` — what is written around a place does not depend on what is put there, among
  expressions that are alike.
* `Place.render_single_iff` — a conjunction or disjunction of one operand renders like the
  operand, unless the operand itself is looked at.
-/

namespace PersistenceQuery

open Emission (keyword parenthesized separated operand call)
open Text

/-! ### What a frame reads of its operand -/

/-- Two operands that the expression around them cannot tell apart: they bind equally, and where a
sign or an operator is looked for, they have the same. -/
def Frame.Alike (f : Frame) (x y : Expr) : Prop :=
  x.strength = y.strength ∧ match f with
    | .negate => x.isNegativeLiteral = y.isNegativeLiteral
    | .arithmeticRight op _ => op.rightSide x = op.rightSide y
    | _ => True

/-- Two expressions that nothing around the place can tell apart. -/
def Place.Alike (P : Place) (x y : Expr) : Prop :=
  x.strength = y.strength ∧ ∀ f ∈ P.frames.head?, f.Alike x y

theorem Place.Alike.refl (P : Place) (x : Expr) : P.Alike x x :=
  ⟨rfl, fun f _ => ⟨rfl, by cases f <;> trivial⟩⟩

/-- Around operands of the same strength a frame gives expressions that no frame tells apart. -/
theorem Frame.strength_fill (f : Frame) {x y : Expr} (h : x.strength = y.strength) :
    (f.fill x).strength = (f.fill y).strength := by
  cases f with
  | logical op before after =>
    rcases before with _ | ⟨b, _ | ⟨c, before⟩⟩ <;> rcases after with _ | ⟨a, after⟩ <;>
      simp [fill, Expr.strength, h]
  | _ => simp only [fill, Expr.strength]

theorem Frame.alike_fill (f g : Frame) {x y : Expr} (h : x.strength = y.strength) :
    g.Alike (f.fill x) (f.fill y) := by
  refine ⟨f.strength_fill h, ?_⟩
  cases g with
  | negate => cases f <;> rfl
  | arithmeticRight op l => cases f <;> rfl
  | _ => trivial

/-! ### What is written around a place -/

theorem isEmpty_append_cons {α : Type} (before after : List α) (x : α) :
    (before ++ x :: after).isEmpty = false := by simp

section
variable {R : Expr → Prop} {D : Dialect}

theorem Embeds.parenthesized {w C : Expr → List Emission} (h : Embeds R w C) :
    Embeds R w fun x => parenthesized (C x) := by
  simp only [Emission.parenthesized]
  exact (h.append_right [.closing]).cons .opening

theorem Embeds.separated {w C : Expr → List Emission} (separator : String)
    (before after : List (List Emission)) (h : Embeds R w C) :
    Embeds R w fun x => separated separator (before ++ C x :: after) := by
  cases before with
  | nil => exact h.append_right _
  | cons first before =>
    have hrest : Embeds R w fun x =>
        (before ++ C x :: after).flatMap (Emission.word separator :: ·) :=
      .flatMap before after (h.cons (.word separator))
    exact hrest.append_left first

/-- What is written in the place of an operand among operands of the same strength. -/
theorem Embeds.operand (parent : Strength) (side : Side) {strength : Strength}
    (hR : ∀ x, R x → x.strength = strength) :
    Embeds R (fun x => D.write (.expr x))
      fun x => operand parent side x.strength (D.write (.expr x)) := by
  by_cases hneeds : needsParentheses parent strength side = true
  · refine Embeds.self.parenthesized.congr fun x hx => ?_
    rw [hR x hx, Emission.operand, if_pos hneeds]
  · refine Embeds.self.congr fun x hx => ?_
    rw [hR x hx, Emission.operand, if_neg hneeds]

end

/-- What is written of a selecting query is what is written of an expression in a clause of it
between other emissions. -/
theorem Clause.embeds_write (c : Clause) (R : Expr → Prop) :
    Embeds R (fun x => Dialect.standard.write (.expr x))
      fun x => Dialect.standard.write (.select (c.fill x)) := by
  have hwrite : ∀ q : Select, Dialect.standard.write (.select q) = q.layout .standard :=
    fun q => Part.write_of_form rfl
  simp only [hwrite]
  cases c with
  | item q before after =>
    simp only [fill, Select.layout, layoutsOfList_eq_map, List.map_append, List.map_cons]
    exact (Embeds.self.separated ", " _ _).append_left _ |>.append_right _ |>.append_right _
      |>.append_right _ |>.append_right _ |>.append_right _ |>.append_right _
  | join q before after entity joinsBefore joinsAfter kind fetch target =>
    have hjoin : Embeds R (fun x => Dialect.standard.write (.expr x))
        fun x => .space :: Dialect.standard.write (.join ⟨kind, fetch, target, some x⟩) := by
      have hlayout : ∀ j : Join, Dialect.standard.write (.join j) = j.layout .standard :=
        fun j => Part.write_of_form rfl
      simp only [hlayout, Join.layout, layoutOfOption, Dialect.accept_expr]
      exact (Embeds.self.append_left _).append_left _ |>.cons _
    simp only [fill, Select.layout, layoutsOfSources_eq_map, layoutOfJoins_eq_flatMap,
      List.map_append, List.map_cons]
    exact (((hjoin.flatMap joinsBefore joinsAfter).append_left _).separated ", " _ _).append_left _
      |>.append_right _ |>.append_right _ |>.append_right _ |>.append_right _
  | filter q =>
    simp only [fill, Select.layout, layoutOfOption, Dialect.accept_expr]
    exact (Embeds.self.append_left _).append_left _ |>.append_right _ |>.append_right _
      |>.append_right _
  | groupBy q before after =>
    simp only [fill, Select.layout, layoutsOfList_eq_map, List.map_append, List.map_cons,
      isEmpty_append_cons, Bool.false_eq_true, if_false]
    exact ((Embeds.self.separated ", " _ _).append_left _).append_left _ |>.append_right _
      |>.append_right _
  | having q =>
    simp only [fill, Select.layout, layoutOfOption, Dialect.accept_expr]
    exact (Embeds.self.append_left _).append_left _ |>.append_right _
  | orderBy q before after order nulls =>
    have hkey : Embeds R (fun x => Dialect.standard.write (.expr x))
        fun x => Dialect.standard.write (.sort ⟨x, order, nulls⟩) := by
      have hlayout : ∀ k : SortKey, Dialect.standard.write (.sort k) = k.layout .standard :=
        fun k => Part.write_of_form rfl
      simp only [hlayout, SortKey.layout, Dialect.accept_expr]
      exact Embeds.self.append_right _ |>.append_right _
    simp only [fill, Select.layout, layoutsOfKeys_eq_map, List.map_append, List.map_cons,
      isEmpty_append_cons, Bool.false_eq_true, if_false]
    exact ((hkey.separated ", " _ _).append_left _).append_left _

/-- What is written in a place is what is written of the expression put there, between other
emissions; or the writing stops somewhere, whatever is put there. -/
def Surrounds (R : Expr → Prop) (C : Expr → List Emission) : Prop :=
  Embeds R (fun x => Dialect.standard.write (.expr x)) C
    ∨ ∃ as fault bs, ∀ x, R x → C x = as ++ .stop fault :: bs

/-- Parts of one form are written by the same rule, or refused for the same reason. -/
theorem Surrounds.accept {R : Expr → Prop} {p : Expr → Part} {form : Form}
    (hform : ∀ x, (p x).form = form)
    (h : ∀ w, Surrounds R fun x => (p x).layout .standard w) :
    Surrounds R fun x => Dialect.standard.write (p x) := by
  cases hrule : Dialect.standard.rule? form.kind with
  | none =>
    refine .inr ⟨[], .unsupportedKind form.kind, [], fun x _ => ?_⟩
    show Dialect.standard.write (p x) = [.stop (.unsupportedKind form.kind)]
    rw [Dialect.write, Dialect.accept, Part.kind, hform x, hrule]
  | some r =>
    have hwrite : ∀ x, Dialect.standard.write (p x)
        = if r.form == form then (p x).layout .standard r.keyword
          else [.stop (.mismatch r.kind form.kind)] := by
      intro x
      rw [Dialect.write, Dialect.accept, Part.kind, hform x, hrule]
      show r.accept (p x) ((p x).layout .standard) = _
      rw [Rule.accept, Rule.fits, hform x, Part.kind, hform x]
    simp only [hwrite]
    by_cases hr : (r.form == form) = true
    · simp only [hr, if_true]
      exact h r.keyword
    · simp only [hr]
      exact .inr ⟨[], _, [], fun x _ => rfl⟩

/-- What is written of an expression is what is written of the operand in its frame, among operands
that the frame does not tell apart, between other emissions. -/
theorem Frame.surrounds (f : Frame) (e : Expr) :
    Surrounds (fun x => f.Alike x e) fun x => Dialect.standard.write (.expr (f.fill x)) := by
  have hform : ∀ x, (Part.expr (f.fill x)).form = (Part.expr (f.fill e)).form := by
    intro x
    cases f <;> rfl
  refine .accept hform fun w => ?_
  have hoperand : ∀ parent side, Embeds (fun x => f.Alike x e)
      (fun x => Dialect.standard.write (.expr x))
      fun x => operand parent side x.strength (Dialect.standard.write (.expr x)) :=
    fun parent side => .operand parent side fun x hx => hx.1
  cases f with
  | aliased label =>
    exact .inl ((hoperand .aliased .left).append_right _ |>.append_right _)
  | arithmeticLeft op r =>
    exact .inl ((hoperand op.strength .left).append_right _ |>.append_right _)
  | arithmeticRight op l =>
    have hright : Embeds (fun x => (arithmeticRight op l).Alike x e)
        (fun x => Dialect.standard.write (.expr x))
        fun x => operand op.strength (op.rightSide x) x.strength
          (Dialect.standard.write (.expr x)) :=
      (hoperand op.strength (op.rightSide e)).congr fun x hx => by rw [hx.2]
    exact .inl (hright.append_left _)
  | negate =>
    by_cases hnegative : e.isNegativeLiteral = true
    · refine .inl ((Embeds.self.parenthesized.cons (.word "-")).congr fun x hx => ?_)
      have hx : x.isNegativeLiteral = true := by rw [hx.2, hnegative]
      show Emission.word "-" :: (if x.isNegativeLiteral then _ else _) = _
      rw [if_pos hx]
      rfl
    · refine .inl (((hoperand .unary .strict).cons (.word "-")).congr fun x hx => ?_)
      have hx : ¬ x.isNegativeLiteral = true := by rw [hx.2]; exact hnegative
      show Emission.word "-" :: (if x.isNegativeLiteral then _ else _) = _
      rw [if_neg hx]
      rfl
  | choiceOperand arms otherwise =>
    exact .inl ((Embeds.self.append_left [Emission.space]).cons _ |>.append_right _
      |>.append_right _ |>.append_right _)
  | choiceCondition operand before result after otherwise =>
    simp only [fill, Part.layout, Expr.layout, layoutOfArms_eq_flatMap]
    have harm : Embeds (fun x => (choiceCondition operand before result after otherwise).Alike x e)
        (fun x => Dialect.standard.write (.expr x))
        fun x => keyword "WHEN" ++ Dialect.standard.write (.expr x) ++ keyword "THEN"
          ++ Dialect.standard.write (.expr result) :=
      (Embeds.self.append_left _).append_right _ |>.append_right _
    exact .inl ((harm.flatMap before after).append_left _ |>.append_right _ |>.append_right _)
  | choiceResult operand before condition after otherwise =>
    simp only [fill, Part.layout, Expr.layout, layoutOfArms_eq_flatMap]
    have harm : Embeds (fun x => (choiceResult operand before condition after otherwise).Alike x e)
        (fun x => Dialect.standard.write (.expr x))
        fun x => keyword "WHEN" ++ Dialect.standard.write (.expr condition) ++ keyword "THEN"
          ++ Dialect.standard.write (.expr x) :=
      Embeds.self.append_left _
    exact .inl ((harm.flatMap before after).append_left _ |>.append_right _ |>.append_right _)
  | choiceOtherwise operand arms =>
    exact .inl ((Embeds.self.append_left (keyword "ELSE")).append_left _ |>.append_right _)
  | subquery c => exact .inl (c.embeds_write _).parenthesized
  | «exists» c negated => exact .inl ((c.embeds_write _).parenthesized.cons _ |>.cons _)
  | inSubqueryClause v c negated => exact .inl ((c.embeds_write _).parenthesized.append_left _)
  | inSubqueryValue q negated =>
    exact .inl ((hoperand .predicate .strict).append_right _ |>.append_right _)
  | comparisonLeft op r =>
    exact .inl ((hoperand .predicate .strict).append_right _ |>.append_right _)
  | comparisonRight op l => exact .inl ((hoperand .predicate .strict).append_left _)
  | not => exact .inl ((hoperand .not .left).cons _ |>.cons _)
  | isNull negated => exact .inl ((hoperand .predicate .strict).append_right _)
  | memberOf p negated =>
    exact .inl ((hoperand .predicate .strict).append_right _ |>.append_right _)
  | likeValue p escape negated =>
    exact .inl ((hoperand .predicate .strict).append_right _ |>.append_right _ |>.append_right _)
  | likePattern v escape negated =>
    exact .inl ((hoperand .predicate .strict).append_left _ |>.append_right _)
  | betweenValue low high negated =>
    exact .inl ((hoperand .predicate .strict).append_right _ |>.append_right _ |>.append_right _
      |>.append_right _)
  | betweenLow v high negated =>
    exact .inl ((hoperand .predicate .strict).append_left _ |>.append_right _ |>.append_right _)
  | betweenHigh v low negated => exact .inl ((hoperand .predicate .strict).append_left _)
  | inListValue es negated =>
    cases es with
    | nil => exact .inr ⟨[], _, [], fun x _ => rfl⟩
    | cons m es =>
      exact .inl ((hoperand .predicate .strict).append_right _ |>.append_right _)
  | inListMember v before after negated =>
    simp only [fill, Part.layout, Expr.layout, isEmpty_append_cons, Bool.false_eq_true, if_false,
      layoutsOfList_eq_map, List.map_append, List.map_cons]
    exact .inl ((Embeds.self.separated ", " _ _).parenthesized.append_left _)
  | logical op before after =>
    cases before with
    | nil =>
      cases after with
      | nil => exact .inl .self
      | cons y after =>
        exact .inl ((hoperand op.strength .chained).separated (" " ++ op.symbol ++ " ") [] _)
    | cons b before =>
      have hlayout : ∀ x, layoutOfOperands .standard op (b :: (before ++ x :: after))
          = separated (" " ++ op.symbol ++ " ") (((b :: before).map fun y =>
              operand op.strength .chained y.strength (Dialect.standard.write (.expr y)))
            ++ operand op.strength .chained x.strength (Dialect.standard.write (.expr x))
            :: after.map fun y =>
              operand op.strength .chained y.strength (Dialect.standard.write (.expr y))) := by
        intro x
        rw [layoutOfOperands, isEmpty_append_cons, layoutsOfOperands_eq_map, List.map_append]
        rfl
      exact .inl (((hoperand op.strength .chained).separated _ _ _).congr fun x _ => hlayout x)
  | unary g => exact .inl ((Embeds.self.separated ", " [] []).parenthesized.cons (.word w))
  | nullIfLeft r => exact .inl ((Embeds.self.separated ", " [] [_]).parenthesized.cons (.word w))
  | nullIfRight l => exact .inl ((Embeds.self.separated ", " [_] []).parenthesized.cons (.word w))
  | aggregate g distinct =>
    exact .inl ((Embeds.self.append_left _).parenthesized.cons (.word g.keyword))
  | substringValue start length =>
    exact .inl ((Embeds.self.separated ", " [] (_ :: _)).parenthesized.cons (.word w))
  | substringStart v length =>
    exact .inl ((Embeds.self.separated ", " [_] _).parenthesized.cons (.word w))
  | substringLength v start =>
    exact .inl ((Embeds.self.separated ", " [_, _] []).parenthesized.cons (.word w))
  | variadic g before after =>
    simp only [fill, Part.layout, Expr.layout, layoutsOfList_eq_map, List.map_append, List.map_cons]
    exact .inl ((Embeds.self.separated ", " _ _).parenthesized.cons _)
  | function name before after =>
    simp only [fill, Part.layout, Expr.layout, layoutsOfList_eq_map, List.map_append, List.map_cons]
    exact .inl ((Embeds.self.separated ", " (_ :: _) _).parenthesized.cons _)
  | custom kind before after =>
    simp only [fill, Part.layout, Expr.layout, layoutsOfList_eq_map, List.map_append, List.map_cons]
    exact .inl ((Embeds.self.separated ", " _ _).parenthesized.cons _)

/-- What is written of a query is what is written of the expression in a clause of it between other
emissions. -/
theorem Root.embeds_write (r : Root) (R : Expr → Prop) :
    Embeds R (fun x => Dialect.standard.write (.expr x))
      fun x => Dialect.standard.write (r.fill x).part := by
  cases r with
  | select c => exact c.embeds_write R
  | assignment q before after path =>
    have hwrite : ∀ q : Update, Dialect.standard.write (.update q) = q.layout .standard :=
      fun q => Part.write_of_form rfl
    have hset : Embeds R (fun x => Dialect.standard.write (.expr x))
        fun x => Dialect.standard.write (.assignment ⟨path, x⟩) := by
      have hlayout : ∀ a : Assignment,
          Dialect.standard.write (.assignment a) = a.layout .standard :=
        fun a => Part.write_of_form rfl
      simp only [hlayout, Assignment.layout, Dialect.accept_expr]
      exact Embeds.self.append_left _
    simp only [fill, Query.part, hwrite, Update.layout, Dialect.accept_assignment, List.map_append,
      List.map_cons]
    exact (hset.separated ", " _ _).append_left _ |>.append_right _
  | updateFilter q =>
    have hwrite : ∀ q : Update, Dialect.standard.write (.update q) = q.layout .standard :=
      fun q => Part.write_of_form rfl
    simp only [fill, Query.part, hwrite, Update.layout, layoutOfOption, Dialect.accept_expr]
    exact (Embeds.self.append_left _).append_left _
  | deleteFilter q =>
    have hwrite : ∀ q : Delete, Dialect.standard.write (.delete q) = q.layout .standard :=
      fun q => Part.write_of_form rfl
    simp only [fill, Query.part, hwrite, Delete.layout, layoutOfOption, Dialect.accept_expr]
    exact (Embeds.self.append_left _).append_left _

/-- A frame inside what surrounds it. -/
theorem Surrounds.trans {R S : Expr → Prop} {C : Expr → List Emission} {f : Frame}
    (hC : Surrounds S C) (hf : Surrounds R fun x => Dialect.standard.write (.expr (f.fill x)))
    (hR : ∀ x, R x → S (f.fill x)) : Surrounds R fun x => C (f.fill x) := by
  rcases hC with ⟨as, bs, hC⟩ | ⟨as, fault, bs, hC⟩
  · rcases hf with ⟨cs, ds, hf⟩ | ⟨cs, fault, ds, hf⟩
    · refine .inl ⟨as ++ cs, ds ++ bs, fun x hx => ?_⟩
      have hx' : Dialect.standard.write (.expr (f.fill x))
        = cs ++ Dialect.standard.write (.expr x) ++ ds := hf x hx
      simp [hC _ (hR x hx), hx']
    · refine .inr ⟨as ++ cs, fault, ds ++ bs, fun x hx => ?_⟩
      have hx' : Dialect.standard.write (.expr (f.fill x)) = cs ++ .stop fault :: ds := hf x hx
      simp [hC _ (hR x hx), hx']
  · exact .inr ⟨as, fault, bs, fun x hx => hC _ (hR x hx)⟩

/-- What is written of a query is what is written of the expression in a place of it, among
expressions that nothing around the place tells apart, between other emissions. -/
theorem Place.surrounds (P : Place) (e : Expr) :
    Surrounds (fun x => P.Alike x e) fun x => Dialect.standard.write (P.fill x).part := by
  obtain ⟨r, fs⟩ := P
  induction fs generalizing e with
  | nil => exact .inl (r.embeds_write _)
  | cons f fs ih =>
    have hf : Surrounds (fun x => (Place.mk r (f :: fs)).Alike x e)
        fun x => Dialect.standard.write (.expr (f.fill x)) := by
      have halike : ∀ x, (Place.mk r (f :: fs)).Alike x e → f.Alike x e := fun x hx => hx.2 f rfl
      rcases f.surrounds e with ⟨as, bs, hf⟩ | ⟨as, fault, bs, hf⟩
      · exact .inl ⟨as, bs, fun x hx => hf x (halike x hx)⟩
      · exact .inr ⟨as, fault, bs, fun x hx => hf x (halike x hx)⟩
    exact (ih (f.fill e)).trans hf fun x hx =>
      ⟨f.strength_fill hx.1, fun g _ => f.alike_fill g hx.1⟩

/-! ### Conjunctions and disjunctions of one operand -/

/-- The expression directly around looks at the operand itself: a minus sign at a negative literal,
and a sum or product at a sum or product on its right. -/
def Frame.exposes : Frame → Expr → Bool
  | .negate, e => e.isNegativeLiteral
  | .arithmeticRight op _, e => op.rightSide e == .chained
  | _, _ => false

/-- What stands directly around the place looks at the expression itself. -/
def Place.exposes (P : Place) (e : Expr) : Bool := P.frames.head?.any (·.exposes e)

theorem Expr.write_single (op : LogicalOp) (e : Expr) :
    Dialect.standard.write (.expr (.logical op [e])) = Dialect.standard.write (.expr e) :=
  Expr.write_of_form rfl

/-- Where nothing looks at the expression itself, a conjunction of it is not told apart from it. -/
theorem Place.alike_single {P : Place} {e : Expr} (h : P.exposes e = false) (op : LogicalOp) :
    P.Alike (.logical op [e]) e := by
  refine ⟨rfl, fun f hf => ⟨rfl, ?_⟩⟩
  have hf : f.exposes e = false := by
    rw [Place.exposes] at h
    rw [Option.mem_def.1 hf] at h
    exact h
  cases f with
  | negate => exact hf.symm
  | arithmeticRight op' l =>
    rcases op'.rightSide_cases e with ⟨hside, -⟩ | hside
    · simp [Frame.exposes, hside] at hf
    · exact hside.symm
  | _ => trivial

/-- The second list has one pair of parentheses more than the first. -/
def HasPairMore (xs ys : List Emission) : Prop :=
  ∃ as ms bs, xs = as ++ ms ++ bs ∧ ys = as ++ parenthesized ms ++ bs

theorem HasPairMore.between {xs ys : List Emission} (h : HasPairMore xs ys)
    (as bs : List Emission) : HasPairMore (as ++ xs ++ bs) (as ++ ys ++ bs) := by
  obtain ⟨cs, ms, ds, rfl, rfl⟩ := h
  exact ⟨as ++ cs, ms, ds ++ bs, by simp, by simp⟩

/-- Where the expression itself is looked at, a conjunction of it is written with a pair of
parentheses more or less. -/
theorem Frame.hasPairMore_of_exposes {f : Frame} {e : Expr} (h : f.exposes e = true)
    (op : LogicalOp) :
    HasPairMore (Dialect.standard.write (.expr (f.fill (.logical op [e]))))
        (Dialect.standard.write (.expr (f.fill e)))
      ∨ HasPairMore (Dialect.standard.write (.expr (f.fill e)))
        (Dialect.standard.write (.expr (f.fill (.logical op [e])))) := by
  cases f with
  | negate =>
    have hnegative : e.isNegativeLiteral = true := h
    have hatom : (Expr.logical op [e]).strength = .atom := by
      cases e with
      | literal v => rfl
      | _ => cases hnegative
    refine .inl ⟨[.word "-"], Dialect.standard.write (.expr e), [], ?_, ?_⟩
    · rw [fill, Expr.write_of_form rfl, Expr.layout, Dialect.accept_expr, hatom,
        Expr.write_single, List.append_nil]
      rfl
    · rw [fill, Expr.write_of_form rfl, Expr.layout, if_pos hnegative, List.append_nil]
      rfl
  | arithmeticRight op' l =>
    have hside : op'.rightSide e = .chained := by simpa [exposes] using h
    have hstrength : e.strength = op'.strength := ArithmeticOp.strength_of_rightSide hside
    have hplain : needsParentheses op'.strength op'.strength .chained = false :=
      decide_eq_false (Nat.lt_irrefl _)
    have hright : needsParentheses op'.strength op'.strength .right = true :=
      decide_eq_true (Nat.le_refl _)
    refine .inr ⟨operand op'.strength .left l.strength (Dialect.standard.write (.expr l))
      ++ keyword op'.symbol, Dialect.standard.write (.expr e), [], ?_, ?_⟩
    · rw [fill, Expr.write_of_form rfl, Expr.layout, Dialect.accept_expr, Dialect.accept_expr,
        hside, hstrength, List.append_nil]
      congr 1
      exact if_neg (by rw [hplain]; decide)
    · have hsingle : (Expr.logical op [e]).strength = op'.strength := hstrength
      rw [fill, Expr.write_of_form rfl, Expr.layout, Dialect.accept_expr, Dialect.accept_expr,
        hsingle, Expr.write_single, List.append_nil]
      congr 1
      exact if_pos hright
  | _ => cases h

/-! ### A pair of parentheses more -/

/-- How many parentheses are opened by the tokens of emissions. -/
def Binder.openings (b : Binder) : List Emission → Nat
  | [] => 0
  | e :: es => (e.token b).toList.count '(' + (b.after e.request?.toList).openings es

theorem Binder.openings_append (b : Binder) (as bs : List Emission) :
    b.openings (as ++ bs)
      = b.openings as + (b.after (as.filterMap Emission.request?)).openings bs := by
  induction as generalizing b with
  | nil => simp [openings, Binder.after]
  | cons a as ih =>
    rw [List.cons_append, openings, ih, openings, Nat.add_assoc]
    cases hr : a.request? <;> simp [Binder.after, hr]

/-- A pair of parentheses opens one more. -/
theorem HasPairMore.openings_eq {xs ys : List Emission} (h : HasPairMore xs ys) (b : Binder) :
    b.openings ys = b.openings xs + 1 := by
  obtain ⟨as, ms, bs, rfl, rfl⟩ := h
  have hpair : ∀ b : Binder, b.openings (parenthesized ms) = b.openings ms + 1 := by
    intro b
    rw [parenthesized, Binder.openings, Binder.openings_append]
    have hopening : (Emission.opening.token b).toList.count '(' = 1 := by
      rw [Emission.token_opening]
      decide
    have hclosing : ∀ b : Binder, b.openings [.closing] = 0 := by
      intro b
      rw [Binder.openings, Emission.token_closing, Binder.openings]
      decide
    rw [hopening, hclosing]
    exact Nat.add_comm 1 _
  have hrequests : (parenthesized ms).filterMap Emission.request?
      = ms.filterMap Emission.request? := by
    simp [parenthesized, Emission.request?, List.filterMap_cons]
  simp only [Binder.openings_append, List.filterMap_append, hrequests, hpair]
  omega

/-- Parentheses never fail. -/
theorem HasPairMore.findSome?_fault? {xs ys : List Emission} (h : HasPairMore xs ys) (b : Binder) :
    ys.findSome? (Emission.fault? b) = xs.findSome? (Emission.fault? b) := by
  obtain ⟨as, ms, bs, rfl, rfl⟩ := h
  simp [parenthesized, Emission.fault?, List.findSome?_append, List.findSome?_cons]

/-- The parentheses that are opened in a text that is written. -/
theorem Draft.count_emitAll {d d' : Draft} {es : List Emission} (h : d.emitAll es = (d', none)) :
    d'.text.toList.count '(' = d.text.toList.count '(' + d.binder.openings es := by
  induction es generalizing d with
  | nil =>
    rw [emitAll_nil, Prod.mk.injEq] at h
    rw [← h.1]
    rfl
  | cons e es ih =>
    obtain ⟨d₁, he, hes⟩ := emitAll_cons_eq_none.1 h
    obtain ⟨gap, hgap, htext⟩ := Draft.exists_gap_emit he
    have hgap : gap.count '(' = 0 := by
      rcases hgap with rfl | rfl <;> decide
    rw [ih hes, htext, binder_of_emit he, Binder.openings, List.count_append, List.count_append,
      hgap]
    omega

/-- Trimming takes away no parentheses. -/
theorem count_trim (cs : List Char) : (trim cs).count '(' = cs.count '(' := by
  obtain ⟨as, bs, has, hbs, heq⟩ := exists_append_trim cs
  have hblank : ∀ bs : List Char, (∀ c ∈ bs, isBlank c = true) → bs.count '(' = 0 := by
    intro bs hbs
    exact List.count_eq_zero.2 fun hmem => absurd (hbs _ hmem) (by decide)
  conv_rhs => rw [heq, List.count_append, List.count_append, hblank as has, hblank bs hbs]
  omega

/-- The parentheses in a text are those that its emissions open. -/
theorem Binder.count_rendered {b : Binder} {es : List Emission} {r : Rendered}
    (h : b.rendered es = .ok r) : r.text.toList.count '(' = b.openings es := by
  obtain ⟨d, hemit, hfinish⟩ := Binder.rendered_eq_ok.1 h
  obtain ⟨-, -, htext, -⟩ := Draft.finish_eq_ok.1 hfinish
  rw [htext, String.toList_ofList, count_trim, Draft.count_emitAll hemit]
  exact Nat.zero_add _

/-- Two queries of which one is written with a pair of parentheses more fail in the same way, or
have two texts. -/
theorem HasPairMore.rendered_cases {q q' : Query}
    (h : HasPairMore (Dialect.standard.write q.part) (Dialect.standard.write q'.part))
    (b : Binder) :
    (∃ f, b.rendered (Dialect.standard.write q.part) = .error f
        ∧ b.rendered (Dialect.standard.write q'.part) = .error f)
      ∨ ∃ r r', b.rendered (Dialect.standard.write q.part) = .ok r
        ∧ b.rendered (Dialect.standard.write q'.part) = .ok r' ∧ r.text ≠ r'.text := by
  have hq := q.rendered_outcome Dialect.standard_hasWords b
  have hq' := q'.rendered_outcome Dialect.standard_hasWords b
  rw [← Query.findSome?_write] at hq hq'
  rw [h.findSome?_fault?] at hq'
  cases hfault : (Dialect.standard.write q.part).findSome? (Emission.fault? b) with
  | some f =>
    rw [hfault] at hq hq'
    exact .inl ⟨f, hq, hq'⟩
  | none =>
    rw [hfault] at hq hq'
    obtain ⟨r, hr⟩ := hq
    obtain ⟨r', hr'⟩ := hq'
    refine .inr ⟨r, r', hr, hr', fun htext => ?_⟩
    have hcount := Binder.count_rendered hr'
    rw [← htext, Binder.count_rendered hr, h.openings_eq b] at hcount
    omega

/-! ### Rendered queries -/

section
variable (P : Place) (op : LogicalOp) (e : Expr)

/-- A conjunction of one operand keeps the rules that the operand keeps. -/
theorem Place.checkShape_single :
    (P.fill (.logical op [e])).checkShape = (P.fill e).checkShape := by
  obtain ⟨as, bs, h⟩ := P.embeds_nodes Expr.isShallow_checkShape
  have hnodes : (Expr.logical op [e]).nodes = .logical op [e] :: e.nodes := by
    rw [Expr.nodes, nodesOfList, nodesOfList, List.append_nil]
  have hroot : (P.fill (.logical op [e])).checkRoot = (P.fill e).checkRoot :=
    P.root.checkRoot_fill _ _
  have hchecks : ∀ x, (P.fill x).nodes.map Expr.checkShape
      = as ++ x.nodes.map Expr.checkShape ++ bs := fun x => h x trivial
  have hsingle : (as ++ (Expr.logical op [e]).nodes.map Expr.checkShape ++ bs).forM id
      = (as ++ e.nodes.map Expr.checkShape ++ bs).forM id := by
    have hself : (Expr.logical op [e]).checkShape = .ok () := rfl
    rw [hnodes, List.map_cons, hself]
    simp only [List.append_assoc, List.cons_append, List.forM_eq_forM, List.forM_append,
      List.forM_cons]
    rfl
  rw [Query.checkShape, Query.checkShape, hroot, forM_eq_forM_map,
    forM_eq_forM_map _ (P.fill e).nodes, hchecks, hchecks, hsingle]

/-- A conjunction of one operand has the parameters of the operand. -/
theorem Place.parameters_single :
    (P.fill (.logical op [e])).parameters = (P.fill e).parameters := by
  obtain ⟨as, bs, h⟩ := P.embeds_nodes Expr.isShallow_parameter?
  have hparameters : ∀ x, (P.fill x).parameters
      = (as ++ x.nodes.map Expr.parameter? ++ bs).filterMap id := by
    intro x
    have hx : (P.fill x).nodes.map Expr.parameter? = as ++ x.nodes.map Expr.parameter? ++ bs :=
      h x trivial
    rw [Query.parameters, ← hx, List.filterMap_map]
    rfl
  rw [hparameters, hparameters, Expr.nodes, nodesOfList, nodesOfList, List.append_nil]
  simp [Expr.parameter?]

/-- What is written is the same, or differs by a pair of parentheses where the expression itself is
looked at. -/
theorem Place.write_single_cases :
    Dialect.standard.write (P.fill (.logical op [e])).part = Dialect.standard.write (P.fill e).part
        ∧ (P.exposes e = true → ∃ fault, .stop fault ∈ Dialect.standard.write (P.fill e).part)
      ∨ P.exposes e = true
        ∧ (HasPairMore (Dialect.standard.write (P.fill (.logical op [e])).part)
            (Dialect.standard.write (P.fill e).part)
          ∨ HasPairMore (Dialect.standard.write (P.fill e).part)
            (Dialect.standard.write (P.fill (.logical op [e])).part)) := by
  by_cases hexposes : P.exposes e = true
  · -- the frame that looks at the expression is itself in a place that does not
    obtain ⟨r, _ | ⟨f, fs⟩⟩ := P
    · cases hexposes
    have hf : f.exposes e = true := hexposes
    have halike : ∀ x, x.strength = e.strength →
        (Place.mk r fs).Alike (f.fill x) (f.fill e) := fun x hx =>
      ⟨f.strength_fill hx, fun g _ => f.alike_fill g hx⟩
    rcases (Place.mk r fs).surrounds (f.fill e) with ⟨as, bs, h⟩ | ⟨as, fault, bs, h⟩
    · have hwrite : ∀ x, x.strength = e.strength →
          Dialect.standard.write ((Place.mk r (f :: fs)).fill x).part
            = as ++ Dialect.standard.write (.expr (f.fill x)) ++ bs := fun x hx =>
        h (f.fill x) (halike x hx)
      refine .inr ⟨hexposes, ?_⟩
      rw [hwrite e rfl, hwrite (.logical op [e]) rfl]
      rcases f.hasPairMore_of_exposes hf op with hpair | hpair
      · exact .inl (hpair.between as bs)
      · exact .inr (hpair.between as bs)
    · have hwrite : ∀ x, x.strength = e.strength →
          Dialect.standard.write ((Place.mk r (f :: fs)).fill x).part
            = as ++ .stop fault :: bs := fun x hx => h (f.fill x) (halike x hx)
      refine .inl ⟨?_, fun _ => ⟨fault, ?_⟩⟩
      · rw [hwrite e rfl, hwrite (.logical op [e]) rfl]
      · rw [hwrite e rfl]
        exact List.mem_append_right _ List.mem_cons_self
  · have halike := P.alike_single (Bool.eq_false_iff.2 hexposes) op
    refine .inl ⟨?_, fun h => absurd h hexposes⟩
    rcases P.surrounds e with ⟨as, bs, h⟩ | ⟨as, fault, bs, h⟩
    · have hwrite : ∀ x, P.Alike x e → Dialect.standard.write (P.fill x).part
          = as ++ Dialect.standard.write (.expr x) ++ bs := h
      rw [hwrite _ halike, hwrite e (.refl P e),
        Expr.write_single]
    · have hwrite : ∀ x, P.Alike x e → Dialect.standard.write (P.fill x).part
          = as ++ .stop fault :: bs := h
      rw [hwrite _ halike, hwrite e (.refl P e)]

theorem Place.rendered_single_iff (b : Binder) :
    b.rendered (Dialect.standard.write (P.fill (.logical op [e])).part)
        = b.rendered (Dialect.standard.write (P.fill e).part)
      ↔ ¬ (P.exposes e = true
        ∧ ∃ r, b.rendered (Dialect.standard.write (P.fill e).part) = .ok r) := by
  rcases P.write_single_cases op e with ⟨hwrite, hstop⟩ | ⟨hexposes, hpair⟩
  · rw [hwrite]
    refine ⟨fun _ h => ?_, fun _ => rfl⟩
    obtain ⟨hexposes, r, hr⟩ := h
    obtain ⟨fault, hmem⟩ := hstop hexposes
    obtain ⟨d, hemit, -⟩ := Binder.rendered_eq_ok.1 hr
    exact (Draft.binder_of_emitAll hemit).2 fault hmem
  · have hcases : (∃ f, b.rendered (Dialect.standard.write (P.fill e).part) = .error f
          ∧ b.rendered (Dialect.standard.write (P.fill (.logical op [e])).part) = .error f)
        ∨ ∃ r r', b.rendered (Dialect.standard.write (P.fill e).part) = .ok r
          ∧ b.rendered (Dialect.standard.write (P.fill (.logical op [e])).part) = .ok r'
          ∧ r.text ≠ r'.text := by
      rcases hpair with hpair | hpair
      · rcases hpair.rendered_cases b with ⟨f, h', h⟩ | ⟨r', r, h', h, hne⟩
        · exact .inl ⟨f, h, h'⟩
        · exact .inr ⟨r, r', h, h', hne.symm⟩
      · exact hpair.rendered_cases b
    rcases hcases with ⟨f, h, h'⟩ | ⟨r, r', h, h', hne⟩
    · simp [h, h']
    · rw [h, h']
      refine ⟨fun heq => ?_, fun hnot => absurd ⟨hexposes, r, rfl⟩ hnot⟩
      cases heq
      exact absurd rfl hne

/-- Around any place of a query, an expression and the conjunction or disjunction with it as the
only operand render to the same text and parameters or to the same error, unless what stands
directly around the place looks at the expression itself: there the texts differ whenever there is
one. -/
theorem Place.render_single_iff (supplied : Option Bindings) (mode : Mode) :
    (P.fill (.logical op [e])).render .standard supplied mode
        = (P.fill e).render .standard supplied mode
      ↔ ¬ (P.exposes e = true ∧ ∃ r, (P.fill e).render .standard supplied mode = .ok r) := by
  have hbindings : (P.fill (.logical op [e])).checkBindings supplied
      = (P.fill e).checkBindings supplied := by
    rw [Query.checkBindings, P.parameters_single]
    rfl
  have hbinder : (P.fill (.logical op [e])).binder supplied mode
      = (P.fill e).binder supplied mode := by
    rw [Query.binder, P.parameters_single]
    rfl
  have hrendered := P.rendered_single_iff op e ((P.fill e).binder supplied mode)
  rw [Query.render, Query.render, P.checkShape_single, hbindings, hbinder]
  cases (P.fill e).checkShape with
  | error cause => simp
  | ok u =>
    cases (P.fill e).checkBindings supplied with
    | error fault => simp
    | ok u => exact hrendered

end

/-- What a book costs with all that is added to its price; what is added is left out. -/
def booksByTotal : Place where
  root := .select (.item {
    resultType := "Book"
    distinct := false
    items := []
    sources := [⟨⟨"Book", "b"⟩, []⟩]
    filter := none
    groupBy := []
    having := none
    orderBy := [] } [] [])
  frames := [.arithmeticRight .add (.path ⟨["b", "price"]⟩)]

/-- What is added to a price. -/
def surcharges : Expr := .arithmetic .add (.path ⟨["b", "tax"]⟩) (.path ⟨["b", "postage"]⟩)

/-- A sum looks at the sum on its right itself. -/
theorem render_booksByTotal_ne :
    ((booksByTotal.fill surcharges).render .standard none .inline).toOption.map Rendered.text
        = some "SELECT b.price + b.tax + b.postage FROM Book AS b"
      ∧ ((booksByTotal.fill (.logical .and [surcharges])).render .standard none
          .inline).toOption.map Rendered.text
        = some "SELECT b.price + (b.tax + b.postage) FROM Book AS b"
      ∧ (booksByTotal.fill (.logical .and [surcharges])).render .standard none .inline
        ≠ (booksByTotal.fill surcharges).render .standard none .inline := by
  have hplain : ((booksByTotal.fill surcharges).render .standard none
      .inline).toOption.map Rendered.text
      = some "SELECT b.price + b.tax + b.postage FROM Book AS b" := by decide +kernel
  have hsingle : ((booksByTotal.fill (.logical .and [surcharges])).render .standard none
      .inline).toOption.map Rendered.text
      = some "SELECT b.price + (b.tax + b.postage) FROM Book AS b" := by decide +kernel
  refine ⟨hplain, hsingle, fun heq => ?_⟩
  rw [heq, hplain] at hsingle
  revert hsingle
  decide

end PersistenceQuery
