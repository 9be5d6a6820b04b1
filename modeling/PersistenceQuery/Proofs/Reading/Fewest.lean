import PersistenceQuery.Proofs.Reading.Regrouped

/-!
# The fewest parentheses of a reading

Expressions are akin if they differ only in how conjunctions in conjunctions, disjunctions in
disjunctions, and chains of `+` alone and of `*` alone are grouped.  How many parentheses a text
must have to be read as an expression, or as one that is akin, can be counted at the expression: a
pair for every operand that binds too weakly for its place, except on the right of its own
associative operator, where it may be read from the left.

## Main definitions

* `Akin` — expressions that differ in the grouping of associative operators only.
* `Seat`, `Expr.fewest` — where an expression stands, and the fewest parentheses it has there.
* `openings` — the parentheses that are opened among lexemes.

## Main results

* `Akin.strength_eq_fewest_eq` — expressions that are akin have the same number.
* `Reads.fewest_le` — **what is read has at least so many parentheses.**
-/

namespace PersistenceQuery

/-! ### Expressions that are akin -/

/-- The expressions differ in the grouping of conjunctions in conjunctions, disjunctions in
disjunctions, sums in sums and products in products only. -/
inductive Akin : Expr → Expr → Prop
  /-- The operands of an inner conjunction stand in the outer one. -/
  | splice (op : LogicalOp) (as bs cs : List Expr) (hbs : 2 ≤ bs.length) :
    Akin (.logical op (as ++ .logical op bs :: cs)) (.logical op (as ++ bs ++ cs))
  /-- A chain of additions alone, or of multiplications alone, is grouped in any way. -/
  | regroup {op : ArithmeticOp} (h : op = .add ∨ op = .mul) (a b c : Expr) :
    Akin (.arithmetic op a (.arithmetic op b c)) (.arithmetic op (.arithmetic op a b) c)
  | refl (e : Expr) : Akin e e
  | symm {e f : Expr} (h : Akin e f) : Akin f e
  | trans {e f g : Expr} (h : Akin e f) (h' : Akin f g) : Akin e g
  | arithmetic (op : ArithmeticOp) {l l' r r' : Expr} (hl : Akin l l') (hr : Akin r r') :
    Akin (.arithmetic op l r) (.arithmetic op l' r')
  | negate {e e' : Expr} (h : Akin e e') : Akin (.negate e) (.negate e')
  | comparison (op : ComparisonOp) {l l' r r' : Expr} (hl : Akin l l') (hr : Akin r r') :
    Akin (.comparison op l r) (.comparison op l' r')
  | logical (op : LogicalOp) (as bs : List Expr) {e e' : Expr} (h : Akin e e') :
    Akin (.logical op (as ++ e :: bs)) (.logical op (as ++ e' :: bs))
  | not {e e' : Expr} (h : Akin e e') : Akin (.not e) (.not e')
  | like (escape : Option Char) (negated : Bool) {v v' p p' : Expr} (hv : Akin v v')
    (hp : Akin p p') : Akin (.like v p escape negated) (.like v' p' escape negated)
  | between (negated : Bool) {v v' low low' high high' : Expr} (hv : Akin v v')
    (hlow : Akin low low') (hhigh : Akin high high') :
    Akin (.between v low high negated) (.between v' low' high' negated)
  | inList (negated : Bool) {v v' : Expr} (es : List Expr) (hv : Akin v v') :
    Akin (.inList v es negated) (.inList v' es negated)
  | member (negated : Bool) (v : Expr) (as bs : List Expr) {e e' : Expr} (h : Akin e e') :
    Akin (.inList v (as ++ e :: bs) negated) (.inList v (as ++ e' :: bs) negated)
  | isNull (negated : Bool) {v v' : Expr} (hv : Akin v v') :
    Akin (.isNull v negated) (.isNull v' negated)

/-! ### The number of parentheses -/

/-- Where an expression stands. -/
inductive Seat
  /-- Where it has to bind at least as tightly. -/
  | level (s : Strength)
  /-- On the right of an operator. -/
  | behind (op : ArithmeticOp)
  deriving DecidableEq

/-- The strength that an expression needs without parentheses around it. -/
def Seat.strength : Seat → Strength
  | level s => s
  | behind op => op.strength.next

/-- The pair of parentheses around an expression of some strength, if it needs one. -/
def Seat.around (p : Seat) (s : Strength) : Nat := if s < p.strength then 1 else 0

mutual

/-- The fewest parentheses of a text that is read as the expression or one that is akin.  On the
right of its own associative operator an operator may be read from the left: there its operands
stand on the right of the operator too. -/
def Expr.fewest : Seat → Expr → Nat
  | p, .arithmetic op l r =>
    if p = .behind op ∧ op.isAssociative then l.fewest (.behind op) + r.fewest (.behind op)
    else p.around op.strength + (l.fewest (.level op.strength) + r.fewest (.behind op))
  | p, .negate v => p.around .unary + v.fewest (.level .atom)
  | p, .comparison _ l r =>
    p.around .predicate + (l.fewest (.level .additive) + r.fewest (.level .additive))
  | p, .logical op es => p.around (op.strengthOver es) + fewestOfList op.strength es
  | p, .not v => p.around .not + v.fewest (.level .not)
  | p, .like v w _ _ =>
    p.around .predicate + (v.fewest (.level .additive) + w.fewest (.level .additive))
  | p, .between v low high _ =>
    p.around .predicate + (v.fewest (.level .additive) + low.fewest (.level .additive)
      + high.fewest (.level .additive))
  | p, .inList v es _ =>
    p.around .predicate + (v.fewest (.level .additive) + (1 + fewestOfList .or es))
  | p, .isNull v _ => p.around .predicate + v.fewest (.level .additive)
  | p, e => p.around e.strength

/-- The fewest parentheses of expressions that have to bind at least as tightly, side by side. -/
def fewestOfList (s : Strength) : List Expr → Nat
  | [] => 0
  | e :: es => e.fewest (.level s) + fewestOfList s es

end

theorem fewestOfList_append (s : Strength) (as bs : List Expr) :
    fewestOfList s (as ++ bs) = fewestOfList s as + fewestOfList s bs := by
  induction as with
  | nil => simp [fewestOfList]
  | cons a as ih => rw [List.cons_append, fewestOfList, ih, fewestOfList, Nat.add_assoc]

theorem fewestOfList_singleton (s : Strength) (e : Expr) :
    fewestOfList s [e] = e.fewest (.level s) := rfl

namespace Seat

theorem around_le_one (p : Seat) (s : Strength) : p.around s ≤ 1 := by
  rw [around]
  split <;> omega

/-- Where more is asked for, there are more parentheses. -/
theorem around_mono {p q : Seat} (h : p.strength ≤ q.strength) (s : Strength) :
    p.around s ≤ q.around s := by
  rw [around, around]
  split
  · next hlt =>
    have hlt : s < q.strength := Nat.lt_of_lt_of_le hlt h
    rw [if_pos hlt]
  · omega

theorem around_of_le {p : Seat} {s : Strength} (h : p.strength ≤ s) : p.around s = 0 :=
  if_neg (Nat.not_lt_of_le h)

@[simp] theorem around_level_self (s : Strength) : (level s).around s = 0 :=
  around_of_le (Strength.le_refl s)

end Seat

namespace Expr

/-- The operator at the root, if it is one of arithmetic. -/
def root? : Expr → Option ArithmeticOp
  | .arithmetic op _ _ => some op
  | _ => none

/-- Inside an expression the place does not matter; its parentheses are around the whole. -/
theorem fewest_level (s : Strength) (e : Expr) :
    e.fewest (.level s) = (Seat.level s).around e.strength + e.fewest (.level .aliased) := by
  have hfree : ∀ t, (Seat.level .aliased).around t = 0 := fun t =>
    Seat.around_of_le (Nat.zero_le _)
  cases e <;> simp [fewest, strength, hfree]

/-- On the right of an operator an expression needs more strength, unless it goes on with it. -/
theorem fewest_behind {op : ArithmeticOp} {e : Expr}
    (h : ¬ (e.root? = some op ∧ op.isAssociative = true)) :
    e.fewest (.behind op) = e.fewest (.level op.strength.next) := by
  cases e with
  | arithmetic inner l r =>
    have hne : ¬ (Seat.behind op = .behind inner ∧ inner.isAssociative = true) := by
      rintro ⟨heq, hinner⟩
      cases heq
      exact h ⟨rfl, hinner⟩
    rw [fewest, if_neg hne, fewest, if_neg (by simp)]
    rfl
  | _ => rfl

theorem fewest_behind_self {op : ArithmeticOp} (h : op.isAssociative = true) (l r : Expr) :
    (arithmetic op l r).fewest (.behind op) = l.fewest (.behind op) + r.fewest (.behind op) := by
  rw [fewest, if_pos ⟨rfl, h⟩]

theorem fewest_arithmetic_of_not {p : Seat} {op : ArithmeticOp}
    (h : ¬ (p = .behind op ∧ op.isAssociative = true)) (l r : Expr) :
    (arithmetic op l r).fewest p
      = p.around op.strength + (l.fewest (.level op.strength) + r.fewest (.behind op)) := by
  rw [fewest, if_neg h]

theorem fewest_arithmetic (s : Strength) (op : ArithmeticOp) (l r : Expr) :
    (arithmetic op l r).fewest (.level s) = (Seat.level s).around op.strength
      + (l.fewest (.level op.strength) + r.fewest (.behind op)) :=
  fewest_arithmetic_of_not (by simp) l r

/-- Where more is asked for, there are more parentheses. -/
theorem fewest_mono {s t : Strength} (h : s ≤ t) (e : Expr) :
    e.fewest (.level s) ≤ e.fewest (.level t) := by
  have haround : (Seat.level s).around e.strength ≤ (Seat.level t).around e.strength :=
    Seat.around_mono (p := .level s) (q := .level t) h _
  rw [fewest_level s, fewest_level t]
  omega

/-- One pair of parentheses is enough for any place. -/
theorem fewest_le_succ (s t : Strength) (e : Expr) :
    e.fewest (.level s) ≤ 1 + e.fewest (.level t) := by
  have hone := (Seat.level s).around_le_one e.strength
  rw [fewest_level s, fewest_level t]
  omega

/-- The right of an operator asks for as much as its left, and for one pair of parentheses more at
most. -/
theorem fewest_behind_bounds (op : ArithmeticOp) (e : Expr) :
    e.fewest (.level op.strength) ≤ e.fewest (.behind op)
      ∧ e.fewest (.behind op) ≤ 1 + e.fewest (.level op.strength) := by
  by_cases hroot : e.root? = some op ∧ op.isAssociative = true
  · cases e with
    | arithmetic inner l r =>
      -- the left operand stands on the right of the operator, and the rest stays as it is
      obtain rfl : inner = op := Option.some.inj hroot.1
      have hl := fewest_behind_bounds inner l
      rw [fewest_behind_self hroot.2, fewest_arithmetic, Seat.around_level_self]
      omega
    | _ => cases hroot.1
  · rw [fewest_behind hroot]
    exact ⟨fewest_mono op.strength.le_next _, fewest_le_succ _ _ _⟩

/-- On the right of an operator no more is needed than where the next strength is. -/
theorem fewest_behind_le (op : ArithmeticOp) (e : Expr) :
    e.fewest (.behind op) ≤ e.fewest (.level op.strength.next) := by
  by_cases hroot : e.root? = some op ∧ op.isAssociative = true
  · cases e with
    | arithmetic inner l r =>
      obtain rfl : inner = op := Option.some.inj hroot.1
      have hl := (fewest_behind_bounds inner l).2
      have haround : (Seat.level inner.strength.next).around inner.strength = 1 :=
        if_pos (by cases inner <;> decide)
      rw [fewest_behind_self hroot.2, fewest_arithmetic, haround]
      omega
    | _ => cases hroot.1
  · exact (fewest_behind hroot).le

end Expr

theorem fewestOfList_mono {s t : Strength} (h : s ≤ t) (es : List Expr) :
    fewestOfList s es ≤ fewestOfList t es := by
  induction es with
  | nil => exact Nat.le_refl _
  | cons e es ih => exact Nat.add_le_add (e.fewest_mono h) ih

/-! ### Expressions that are akin have the same number -/

theorem LogicalOp.strengthOver_of_two {op : LogicalOp} {es : List Expr} (h : 2 ≤ es.length) :
    op.strengthOver es = op.strength := by
  rcases es with _ | ⟨e, _ | ⟨f, es⟩⟩
  · exact absurd h (by simp)
  · exact absurd h (by simp)
  · rfl

/-- What stands for one operand may be replaced by what binds alike. -/
theorem LogicalOp.strengthOver_congr (op : LogicalOp) (as bs : List Expr) {e e' : Expr}
    (h : e.strength = e'.strength) :
    op.strengthOver (as ++ e :: bs) = op.strengthOver (as ++ e' :: bs) := by
  rcases as with _ | ⟨a, as⟩
  · rcases bs with _ | ⟨b, bs⟩
    · exact h
    · rfl
  · rw [strengthOver_of_two (by simp; omega), strengthOver_of_two (by simp; omega)]

/-- Expressions that are akin bind alike, and need as many parentheses in any place. -/
theorem Akin.strength_eq_fewest_eq {e f : Expr} (h : Akin e f) :
    e.strength = f.strength ∧ ∀ p, e.fewest p = f.fewest p := by
  induction h with
  | splice op as bs cs hbs =>
    -- the inner operator needs no parentheses, and its operands as many as in the outer one
    have hinner : op.strengthOver bs = op.strength := LogicalOp.strengthOver_of_two hbs
    have hspliced : op.strengthOver (as ++ bs ++ cs) = op.strength :=
      LogicalOp.strengthOver_of_two (by simp; omega)
    have hstrength : op.strengthOver (as ++ .logical op bs :: cs)
        = op.strengthOver (as ++ bs ++ cs) := by
      rw [hspliced]
      rcases as with _ | ⟨a, as⟩
      · rcases cs with _ | ⟨c, cs⟩
        · exact hinner
        · rfl
      · exact LogicalOp.strengthOver_of_two (by simp; omega)
    refine ⟨hstrength, fun p => ?_⟩
    rw [Expr.fewest, Expr.fewest, hstrength, fewestOfList_append, fewestOfList_append,
      fewestOfList_append, fewestOfList, Expr.fewest, hinner, Seat.around_level_self]
    omega
  | @regroup op h a b c =>
    have hop : op.isAssociative = true := by rcases h with rfl | rfl <;> rfl
    refine ⟨rfl, fun p => ?_⟩
    -- behind the operator itself all three operands stand behind it, however they are grouped
    by_cases hp : p = .behind op
    · subst hp
      rw [Expr.fewest_behind_self hop, Expr.fewest_behind_self hop, Expr.fewest_behind_self hop,
        Expr.fewest_behind_self hop]
      omega
    · have hne : ¬ (p = .behind op ∧ op.isAssociative = true) := fun h => hp h.1
      rw [Expr.fewest_arithmetic_of_not hne, Expr.fewest_arithmetic_of_not hne,
        Expr.fewest_behind_self hop, Expr.fewest_arithmetic, Seat.around_level_self]
      omega
  | refl e => exact ⟨rfl, fun p => rfl⟩
  | symm _ ih => exact ⟨ih.1.symm, fun p => (ih.2 p).symm⟩
  | trans _ _ ih ih' => exact ⟨ih.1.trans ih'.1, fun p => (ih.2 p).trans (ih'.2 p)⟩
  | logical op as bs h ih =>
    have hstrength := op.strengthOver_congr as bs ih.1
    refine ⟨hstrength, fun p => ?_⟩
    simp only [Expr.fewest, fewestOfList_append, fewestOfList, ih.2, hstrength]
  | member negated v as bs h ih =>
    refine ⟨rfl, fun p => ?_⟩
    simp only [Expr.fewest, fewestOfList_append, fewestOfList, ih.2]
  | arithmetic op hl hr ihl ihr => exact ⟨rfl, fun p => by simp only [Expr.fewest, ihl.2, ihr.2]⟩
  | comparison op hl hr ihl ihr => exact ⟨rfl, fun p => by simp only [Expr.fewest, ihl.2, ihr.2]⟩
  | like escape negated hv hp ihv ihp =>
    exact ⟨rfl, fun p => by simp only [Expr.fewest, ihv.2, ihp.2]⟩
  | between negated hv hlow hhigh ihv ihlow ihhigh =>
    exact ⟨rfl, fun p => by simp only [Expr.fewest, ihv.2, ihlow.2, ihhigh.2]⟩
  | negate _ ih => exact ⟨rfl, fun p => by simp only [Expr.fewest, ih.2]⟩
  | not _ ih => exact ⟨rfl, fun p => by simp only [Expr.fewest, ih.2]⟩
  | inList negated es _ ih => exact ⟨rfl, fun p => by simp only [Expr.fewest, ih.2]⟩
  | isNull negated _ ih => exact ⟨rfl, fun p => by simp only [Expr.fewest, ih.2]⟩

/-! ### What is read -/

/-- The parentheses that are opened among lexemes. -/
def openings (ts : List Lexeme) : Nat := ts.count (.sign "(")

@[simp] theorem openings_nil : openings [] = 0 := rfl

@[simp] theorem openings_append (ts us : List Lexeme) :
    openings (ts ++ us) = openings ts + openings us := List.count_append

theorem openings_cons (t : Lexeme) (ts : List Lexeme) :
    openings (t :: ts) = (if t = .sign "(" then 1 else 0) + openings ts := by
  rw [openings, List.count_cons, Nat.add_comm]
  simp [openings]

@[simp] theorem openings_word (w : String) (ts : List Lexeme) :
    openings (.word w :: ts) = openings ts := by
  simp [openings_cons]

@[simp] theorem openings_parameter (s : String) (ts : List Lexeme) :
    openings (.parameter s :: ts) = openings ts := by
  simp [openings_cons]

@[simp] theorem openings_quoted (s : String) (ts : List Lexeme) :
    openings (.quoted s :: ts) = openings ts := by
  simp [openings_cons]

@[simp] theorem openings_opening (ts : List Lexeme) :
    openings (.sign "(" :: ts) = 1 + openings ts := by
  simp [openings_cons]

theorem openings_sign {s : String} (h : s ≠ "(") (ts : List Lexeme) :
    openings (.sign s :: ts) = openings ts := by
  simp [openings_cons, h]

@[simp] theorem openings_arithmetic (op : ArithmeticOp) (ts : List Lexeme) :
    openings (.sign op.symbol :: ts) = openings ts := openings_sign (by cases op <;> decide) ts

@[simp] theorem openings_comparison (op : ComparisonOp) (ts : List Lexeme) :
    openings (.sign op.symbol :: ts) = openings ts := openings_sign (by cases op <;> decide) ts

@[simp] theorem openings_negation (negated : Bool) : openings (negation negated) = 0 := by
  cases negated <;> rfl

@[simp] theorem openings_escaping (escape : Option Char) : openings (escaping escape) = 0 := by
  cases escape <;> rfl

/-- What is read has at least as many parentheses as it needs. -/
theorem Reads.fewest_le {G : Grammar} {g : Goal} {ts : List Lexeme} {es : List Expr}
    (h : Reads G g ts es) : fewestOfList g.strength es ≤ openings ts := by
  -- by induction on the derivation; only a group has parentheses of its own, and one pair is
  -- enough for whatever stands in it
  induction h with
  | path _ => exact Nat.zero_le _
  | parameter _ => exact Nat.zero_le _
  | @group ts e _ ih =>
    have hpair := e.fewest_le_succ .atom G.outer
    simp only [Goal.strength, fewestOfList_singleton] at ih ⊢
    rw [openings_opening, openings_append]
    omega
  | @climb s ts e _ ih =>
    exact Nat.le_trans (e.fewest_mono s.le_next) ih
  | @negate ts e _ ih =>
    simp only [Goal.strength, fewestOfList_singleton, Expr.fewest, Seat.around_level_self] at ih ⊢
    rw [openings_sign (by decide)]
    omega
  | @arithmetic op ts us l r _ _ ihl ihr =>
    -- what is read on the right binds more tightly, which is more than its place asks for
    have hbehind := r.fewest_behind_le op
    simp only [Goal.strength, fewestOfList_singleton] at ihl ihr ⊢
    rw [Expr.fewest_arithmetic, Seat.around_level_self, openings_append, openings_arithmetic]
    omega
  | comparison _ _ ihl ihr =>
    simp only [Goal.strength, fewestOfList_singleton, Expr.fewest, Seat.around_level_self] at *
    rw [openings_append, openings_comparison]
    omega
  | truth => exact Nat.zero_le _
  | falsity => exact Nat.zero_le _
  | like _ _ ihv ihp =>
    simp only [Goal.strength, fewestOfList_singleton, Expr.fewest, Seat.around_level_self] at *
    simp only [openings_append, openings_word, openings_negation]
    omega
  | between _ _ _ ihv ihlow ihhigh =>
    simp only [Goal.strength, fewestOfList_singleton, Expr.fewest, Seat.around_level_self] at *
    simp only [openings_append, openings_word, openings_negation]
    omega
  | inList _ _ ihv ihes =>
    simp only [Goal.strength, fewestOfList_singleton, Expr.fewest, Seat.around_level_self] at *
    simp only [openings_append, openings_word, openings_negation, openings_opening]
    omega
  | isNull _ ih =>
    simp only [Goal.strength, fewestOfList_singleton, Expr.fewest, Seat.around_level_self] at *
    simp only [openings_append, openings_word]
    omega
  | not _ ih =>
    simp only [Goal.strength, fewestOfList_singleton, Expr.fewest, Seat.around_level_self] at *
    rw [openings_word]
    omega
  | @logical op ts es _ hes ih =>
    have hmono := fewestOfList_mono op.strength.le_next es
    simp only [Goal.strength, fewestOfList_singleton, Expr.fewest,
      LogicalOp.strengthOver_of_two hes, Seat.around_level_self] at ih ⊢
    omega
  | operand _ ih => exact ih
  | operands _ _ ih ihes =>
    simp only [Goal.strength, fewestOfList] at *
    rw [openings_append, openings_word]
    omega
  | member _ ih => exact ih
  | members _ _ ih ihes =>
    simp only [Goal.strength, fewestOfList] at *
    rw [openings_append, openings_sign (by decide)]
    omega

end PersistenceQuery
