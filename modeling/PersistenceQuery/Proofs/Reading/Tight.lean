import PersistenceQuery.Proofs.Query.Occurrence
import PersistenceQuery.Proofs.Reading.Fewest

/-!
# No parentheses too many

What is written of an expression has the fewest parentheses of its reading.  An operand that is
written with parentheses needs them at its place, and where an operand is written without them and
joins the operator around it, nothing is lost: its own operands need as many there.

## Main definitions

* `Expr.isRegular` — every operator is written, and nothing is quoted.
* `IsTight` — the reading needs all the parentheses that are written.

## Main results

* `Readable.exists_tight` — **an expression is read at its own strength, and its reading needs all
  its parentheses.**
-/

namespace PersistenceQuery

/-- Every operator is written, and nothing is quoted: no conjunction has a single operand, and no
pattern an escape character. -/
def Expr.isRegular : Expr → Bool
  | .logical _ [_] | .like _ _ (some _) _ => false
  | _ => true

/-- The reading binds like the expression, and needs all the parentheses that are written. -/
structure IsTight (e f : Expr) : Prop where
  strength_eq : f.strength = e.strength
  root?_eq : f.root? = e.root?
  openings_le : openings e.tokens ≤ f.fewest (.level .aliased)

/-! ### Operands -/

namespace Expr

/-- Where an expression binds tightly enough, its place does not matter. -/
theorem fewest_of_le {s : Strength} {e : Expr} (h : s ≤ e.strength) :
    e.fewest (.level s) = e.fewest (.level .aliased) := by
  rw [fewest_level, Seat.around_of_le h, Nat.zero_add]

/-- Where an expression binds too weakly, it has one pair of parentheses more. -/
theorem fewest_of_lt {s : Strength} {e : Expr} (h : e.strength < s) :
    e.fewest (.level s) = 1 + e.fewest (.level .aliased) := by
  have haround : (Seat.level s).around e.strength = 1 := if_pos h
  rw [fewest_level, haround]

theorem openings_operandTokens (parent : Strength) (side : Side) (e : Expr) :
    openings (e.operandTokens parent side)
      = (if needsParentheses parent e.strength side then 1 else 0) + openings e.tokens := by
  have hclosing : openings [.sign ")"] = 0 := rfl
  rw [operandTokens]
  split
  · rw [openings_opening, openings_append, hclosing, Nat.add_zero]
  · rw [Nat.zero_add]

end Expr

section
variable {e f : Expr} {side : Side}

/-- Where an operand binds too weakly for the strength `s`, it has its parentheses. -/
theorem IsTight.operand_le (h : IsTight e f) {parent s : Strength}
    (hneeds : needsParentheses parent e.strength side = true → e.strength < s) :
    openings (e.operandTokens parent side) ≤ f.fewest (.level s) := by
  have hopenings := h.openings_le
  rw [Expr.openings_operandTokens]
  split
  · next hpair =>
    have hlt : f.strength < s := h.strength_eq ▸ hneeds hpair
    rw [Expr.fewest_of_lt hlt]
    omega
  · have hmono := f.fewest_mono (s := .aliased) (t := s) (Nat.zero_le _)
    omega

theorem IsTight.operand_left (h : IsTight e f) (parent : Strength)
    (hside : side = .left ∨ side = .chained) :
    openings (e.operandTokens parent side) ≤ f.fewest (.level parent) :=
  h.operand_le fun hneeds => by
    rcases hside with rfl | rfl <;> exact of_decide_eq_true hneeds

theorem IsTight.operand_strict (h : IsTight e f) (parent : Strength)
    (hside : side = .right ∨ side = .strict) (hnext : parent < parent.next) :
    openings (e.operandTokens parent side) ≤ f.fewest (.level parent.next) :=
  h.operand_le fun hneeds => by
    have hle : e.strength ≤ parent := by
      rcases hside with rfl | rfl <;> exact of_decide_eq_true hneeds
    exact Nat.lt_of_le_of_lt hle hnext

end

/-! ### Sums and products -/

theorem ArithmeticOp.lt_next (op : ArithmeticOp) : op.strength < op.strength.next := by
  cases op <;> decide

/-- An operand goes on with its operator if it has the same one at its root, and it is associative;
else it is the operand of the operator as a whole. -/
theorem ArithmeticOp.rightSide_roots (op : ArithmeticOp) (r : Expr) :
    (op.rightSide r = .chained ∧ r.root? = some op ∧ op.isAssociative = true)
      ∨ (op.rightSide r = .right ∧ ¬ (r.root? = some op ∧ op.isAssociative = true)) := by
  cases r with
  | arithmetic inner a b =>
    rw [rightSide, Expr.root?, Option.some.injEq]
    split
    · next h => exact .inl ⟨rfl, h⟩
    · next h => exact .inr ⟨rfl, h⟩
  | _ =>
    refine .inr ⟨rfl, ?_⟩
    rintro ⟨hroot, -⟩
    cases hroot

namespace Grafts

variable {op : ArithmeticOp} {l r e : Expr}

theorem strength_eq (h : Grafts op l r e) : e.strength = op.strength := by
  cases h with
  | behind r => rfl
  | under hinner b _ => exact hinner

/-- The root is that of the sum that is joined, or the operator itself. -/
theorem root?_eq (h : Grafts op l r e) (hr : r.root? = some op) : e.root? = some op := by
  cases h with
  | behind r => rfl
  | under _ b _ => exact hr

/-- Both sides need their parentheses still. -/
theorem fewest_le (h : Grafts op l r e) :
    l.fewest (.level op.strength) + r.fewest (.level op.strength)
      ≤ e.fewest (.level op.strength) := by
  induction h with
  | behind r =>
    have hbehind := (r.fewest_behind_bounds op).1
    rw [Expr.fewest_arithmetic, Seat.around_level_self]
    omega
  | @under inner hinner a e b _ ih =>
    -- the operand behind the last operator stays where it is
    rw [← hinner] at ih ⊢
    rw [Expr.fewest_arithmetic, Expr.fewest_arithmetic, Seat.around_level_self]
    omega

end Grafts

/-! ### Conjunctions, disjunctions and lists -/

theorem Splices.fewest_eq {op : LogicalOp} {e : Expr} {fs : List Expr} (h : Splices op e fs) :
    fewestOfList op.strength fs = e.fewest (.level op.strength) := by
  rcases h with rfl | ⟨hfs, rfl⟩
  · exact fewestOfList_singleton _ _
  · rw [Expr.fewest, LogicalOp.strengthOver_of_two hfs, Seat.around_level_self, Nat.zero_add]

/-- Operands need their parentheses still when those inside them become operands. -/
theorem Operands.openings_le {op : LogicalOp} {es : List Expr} {fss : List (List Expr)}
    (h : Operands IsTight op es fss) :
    openings (es.flatMap fun e => .word op.symbol :: e.operandTokens op.strength .chained)
      ≤ fewestOfList op.strength fss.flatten := by
  induction h with
  | nil => exact Nat.le_refl _
  | @cons e fs es fss h _ ih =>
    obtain ⟨e', he, hsplices⟩ := h
    have hfirst := he.operand_left op.strength (.inr rfl)
    rw [List.flatMap_cons, List.flatten_cons, openings_append, openings_word,
      fewestOfList_append, hsplices.fewest_eq]
    omega

theorem IsTight.members_le {es fs : List Expr} (h : List.Forall₂ IsTight es fs) :
    openings (es.flatMap fun e => .sign "," :: e.tokens) ≤ fewestOfList .or fs := by
  induction h with
  | nil => exact Nat.le_refl _
  | @cons e f es fs h _ ih =>
    have hfirst := h.openings_le
    have hmono := f.fewest_mono (s := .aliased) (t := .or) (by decide)
    rw [List.flatMap_cons, openings_append, openings_sign (by decide), fewestOfList]
    omega

/-! ### Expressions -/

/-- The operand of a predicate is read in its place, and needs its parentheses there. -/
theorem Readable.exists_tight_operand {e : Expr} (h : Readable .full e)
    (htight : ∃ f, Reads .full (.level e.strength) e.tokens [f] ∧ IsTight e f) :
    ∃ f, Reads .full (.level .additive) (e.operandTokens .predicate .strict) [f] ∧
      openings (e.operandTokens .predicate .strict) ≤ f.fewest (.level .additive) := by
  obtain ⟨f, hf, htight⟩ := htight
  exact ⟨f, hf.operand_strict .predicate (.inr rfl) h.or_le_strength,
    htight.operand_strict .predicate (.inr rfl) (by decide)⟩

/-- An expression is read at its own strength, and its reading needs all its parentheses. -/
theorem Readable.exists_tight {e : Expr} (h : Readable .full e)
    (hregular : ∀ n ∈ e.nodes, n.isRegular = true) :
    ∃ f, Reads .full (.level e.strength) e.tokens [f] ∧ IsTight e f := by
  induction h with
  | path h =>
    refine ⟨_, ?_, rfl, rfl, ?_⟩
    · rw [Expr.tokens_path h]
      exact .path h
    · rw [Expr.tokens_path h]
      exact Nat.zero_le _
  | @parameter s v h =>
    refine ⟨.parameter s none, ?_, rfl, rfl, ?_⟩
    · rw [Expr.tokens_parameter]
      exact .parameter h
    · rw [Expr.tokens_parameter]
      exact Nat.zero_le _
  | @arithmetic op l r hl hr ihl ihr =>
    rw [Expr.nodes, List.forall_mem_cons, List.forall_mem_append] at hregular
    obtain ⟨l', hl', htightl⟩ := ihl hregular.2.1
    obtain ⟨r', hr', htightr⟩ := ihr hregular.2.2
    have hleft := Reads.operand_left op.strength (.inl rfl) hl' hl.or_le_strength
    have hopeningsl := htightl.operand_left op.strength (.inl rfl)
    -- the parentheses on the right are left out only for the same associative operator
    rcases op.rightSide_roots r with ⟨hside, hroot, -⟩ | ⟨hside, hroot⟩
    · have hright := Reads.operand_left op.strength (.inr rfl) hr' hr.or_le_strength
      have hopeningsr := htightr.operand_left op.strength (.inr rfl)
      obtain ⟨f, hf, hgrafts⟩ := hleft.exists_grafts hright rfl rfl
      have hfewest := hgrafts.fewest_le
      rw [← hgrafts.strength_eq, f.fewest_of_le (Strength.le_refl _), hgrafts.strength_eq]
        at hfewest
      refine ⟨f, ?_, hgrafts.strength_eq,
        hgrafts.root?_eq (htightr.root?_eq.trans hroot), ?_⟩
      · rw [Expr.tokens_arithmetic, hside]
        exact hf
      · rw [Expr.tokens_arithmetic, hside, openings_append, openings_arithmetic]
        omega
    · -- what does not go on with the operator needs the strength of the next level
      have hright := Reads.operand_strict op.strength (.inl rfl) hr' hr.or_le_strength
      have hopeningsr := htightr.operand_strict op.strength (.inl rfl) op.lt_next
      rw [← htightr.root?_eq] at hroot
      refine ⟨.arithmetic op l' r', ?_, rfl, rfl, ?_⟩
      · rw [Expr.tokens_arithmetic, hside]
        exact .arithmetic hleft hright
      · rw [Expr.tokens_arithmetic, hside, openings_append, openings_arithmetic,
          Expr.fewest_arithmetic, Expr.fewest_behind hroot]
        omega
  | negate h ih =>
    rw [Expr.nodes, List.forall_mem_cons] at hregular
    obtain ⟨f, hf, htight⟩ := ih hregular.2
    have hvalue := hf.operand_strict .unary (.inr rfl) h.or_le_strength
    have hopenings := htight.operand_strict .unary (.inr rfl) (by decide)
    refine ⟨.negate f, ?_, rfl, rfl, ?_⟩
    · rw [Expr.tokens_negate h.isNegativeLiteral_eq_false]
      exact .negate hvalue
    · rw [Expr.tokens_negate h.isNegativeLiteral_eq_false, openings_sign (by decide), Expr.fewest]
      exact Nat.le_add_left_of_le hopenings
  | comparison op hl hr ihl ihr =>
    rw [Expr.nodes, List.forall_mem_cons, List.forall_mem_append] at hregular
    obtain ⟨l', hleft, hopeningsl⟩ := hl.exists_tight_operand (ihl hregular.2.1)
    obtain ⟨r', hright, hopeningsr⟩ := hr.exists_tight_operand (ihr hregular.2.2)
    refine ⟨.comparison op l' r', ?_, rfl, rfl, ?_⟩
    · rw [Expr.tokens_comparison]
      exact .comparison hleft hright
    · rw [Expr.tokens_comparison, openings_append, openings_comparison, Expr.fewest]
      omega
  | @logical op es h ih =>
    rw [Expr.nodes, List.forall_mem_cons, nodesOfList_eq, List.forall_mem_flatMap] at hregular
    have hes : ∀ g ∈ es, .or ≤ g.strength ∧
        ∃ g', Reads .full (.level g.strength) g.tokens [g'] ∧ IsTight g g' := fun g hg =>
      ⟨(h g hg).or_le_strength, ih g hg (hregular.2 g hg)⟩
    rcases es with _ | ⟨e, _ | ⟨f, es⟩⟩
    · -- the constants have no parentheses
      refine ⟨.logical op [], ?_, rfl, rfl, ?_⟩
      · rw [Expr.tokens_logical_nil]
        cases op with
        | and => exact .truth
        | or => exact .falsity
      · rw [Expr.tokens_logical_nil]
        cases op <;> exact Nat.zero_le _
    · -- a single operand is not regular
      cases hregular.1
    · obtain ⟨fss, hfss, hoperands⟩ := Reads.exists_operands op hes
      have hopenings := hoperands.openings_le
      have htwo : 2 ≤ fss.flatten.length :=
        Nat.le_trans (Nat.le_add_left 2 es.length) hoperands.length_le
      refine ⟨.logical op fss.flatten, ?_, LogicalOp.strengthOver_of_two htwo, rfl, ?_⟩
      · rw [Expr.tokens_logical]
        exact .logical hfss htwo
      · rw [List.flatMap_cons, openings_append, openings_word] at hopenings
        rw [Expr.tokens_logical, openings_append, Expr.fewest]
        omega
  | not h ih =>
    rw [Expr.nodes, List.forall_mem_cons] at hregular
    obtain ⟨f, hf, htight⟩ := ih hregular.2
    have hvalue := hf.operand_left .not (.inl rfl) h.or_le_strength
    have hopenings := htight.operand_left .not (.inl rfl)
    refine ⟨.not f, ?_, rfl, rfl, ?_⟩
    · rw [Expr.tokens_not]
      exact .not hvalue
    · rw [Expr.tokens_not, openings_word, Expr.fewest]
      exact Nat.le_add_left_of_le hopenings
  | like escape negated hv hp ihv ihp =>
    rw [Expr.nodes, List.forall_mem_cons, List.forall_mem_append] at hregular
    obtain ⟨v', hvalue, hopeningsv⟩ := hv.exists_tight_operand (ihv hregular.2.1)
    obtain ⟨p', hpattern, hopeningsp⟩ := hp.exists_tight_operand (ihp hregular.2.2)
    refine ⟨.like v' p' escape negated, ?_, rfl, rfl, ?_⟩
    · rw [Expr.tokens_like]
      exact .like hvalue hpattern
    · simp only [Expr.tokens_like, openings_append, openings_word, openings_negation,
        openings_escaping, Expr.fewest]
      omega
  | between negated hv hlow hhigh ihv ihlow ihhigh =>
    rw [Expr.nodes, List.forall_mem_cons, List.forall_mem_append, List.forall_mem_append]
      at hregular
    obtain ⟨v', hvalue, hopeningsv⟩ := hv.exists_tight_operand (ihv hregular.2.1.1)
    obtain ⟨low', hfrom, hopeningslow⟩ := hlow.exists_tight_operand (ihlow hregular.2.1.2)
    obtain ⟨high', hto, hopeningshigh⟩ := hhigh.exists_tight_operand (ihhigh hregular.2.2)
    refine ⟨.between v' low' high' negated, ?_, rfl, rfl, ?_⟩
    · rw [Expr.tokens_between]
      exact .between hvalue hfrom hto
    · simp only [Expr.tokens_between, openings_append, openings_word, openings_negation,
        Expr.fewest]
      omega
  | @inList v es negated hne hv hes ihv ihes =>
    rw [Expr.nodes, List.forall_mem_cons, List.forall_mem_append, nodesOfList_eq,
      List.forall_mem_flatMap] at hregular
    obtain ⟨v', hvalue, hopeningsv⟩ := hv.exists_tight_operand (ihv hregular.2.1)
    have htight : ∀ g ∈ es, .or ≤ g.strength ∧
        ∃ g', Reads .full (.level g.strength) g.tokens [g'] ∧ IsTight g g' := fun g hg =>
      ⟨(hes g hg).or_le_strength, ihes g hg (hregular.2.2 g hg)⟩
    cases es with
    | nil => exact absurd rfl hne
    | cons e es =>
      obtain ⟨fs, hfs, hmembers⟩ := Reads.exists_members htight
      have hopenings := IsTight.members_le hmembers
      have hclosing : openings [.sign ")"] = 0 := rfl
      refine ⟨.inList v' fs negated, ?_, rfl, rfl, ?_⟩
      · rw [Expr.tokens_inList]
        exact .inList hvalue hfs
      · rw [List.flatMap_cons, openings_append, openings_sign (by decide)] at hopenings
        simp only [Expr.tokens_inList, openings_append, openings_word, openings_negation,
          openings_opening, hclosing, Expr.fewest]
        omega
  | isNull negated hv ih =>
    rw [Expr.nodes, List.forall_mem_cons] at hregular
    obtain ⟨v', hvalue, hopenings⟩ := hv.exists_tight_operand (ih hregular.2)
    refine ⟨.isNull v' negated, ?_, rfl, rfl, ?_⟩
    · rw [Expr.tokens_isNull]
      exact .isNull hvalue
    · simp only [Expr.tokens_isNull, openings_append, openings_word, openings_negation,
        openings_nil, Expr.fewest]
      omega

end PersistenceQuery
