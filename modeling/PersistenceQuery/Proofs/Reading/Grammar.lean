import PersistenceQuery.Proofs.Query.Path
import PersistenceQuery.Proofs.Text.Lexeme
import PersistenceQuery.Query.Expr

/-!
# The grammar of expressions

How the text of an expression is read: the precedence table as a grammar.  `OR` binds most weakly,
then `AND`, `NOT`, the predicates, which do not group, the sums and the products, which group to
the left, the minus sign in front of an atom, and the atoms.  Nothing here knows how expressions
are written.

## Main definitions

* `Grammar` — the precedence table, or the part of it that is arithmetic.
* `Goal`, `Reads` — what is to be read, and the rules of the grammar.
* `Reading` — an expression that a text can be read as.

## Main results

* `Reads.exists_head` — with what an expression of some strength begins.
* `Path.ofText_text` — a path is known by its text.
-/

namespace PersistenceQuery

/-! ### What is kept for the grammar -/

/-- How much of the precedence table is meant. -/
inductive Grammar
  /-- All of it. -/
  | full
  /-- Sums, products and the minus sign; no word is kept for an operator. -/
  | arithmetic
  deriving DecidableEq

/-- The words of the operators. -/
def keywords : List String :=
  ["OR", "AND", "NOT", "LIKE", "ESCAPE", "BETWEEN", "IN", "IS", "NULL"]

namespace Grammar

/-- The weakest operators. -/
def outer : Grammar → Strength
  | full => .or
  | arithmetic => .additive

/-- The names that paths are made of: identifiers that are not kept for an operator. -/
def isName : Grammar → String → Bool
  | full, s => isParameterName s && !keywords.contains s
  | arithmetic, s => isParameterName s

theorem isParameterName_of_isName {G : Grammar} {s : String} (h : G.isName s = true) :
    isParameterName s = true := by
  cases G with
  | full => exact (Bool.and_eq_true_iff.1 h).1
  | arithmetic => exact h

/-- Only the full grammar has operators that bind more weakly than sums. -/
theorem eq_full {G : Grammar} {s : Strength} (h : G.outer ≤ s) (hs : s < .additive) :
    G = .full := by
  cases G with
  | full => rfl
  | arithmetic => exact absurd hs (Nat.not_lt_of_le h)

theorem outer_le_additive (G : Grammar) : G.outer ≤ .additive := by cases G <;> decide

end Grammar

/-- A path that can be read: one name or more. -/
def Path.IsReadable (G : Grammar) (p : Path) : Prop :=
  p.segments ≠ [] ∧ ∀ s ∈ p.segments, G.isName s = true

instance (G : Grammar) (p : Path) : Decidable (p.IsReadable G) :=
  inferInstanceAs (Decidable (p.segments ≠ [] ∧ ∀ s ∈ p.segments, G.isName s = true))

/-! ### The rules -/

/-- The strength that binds next more tightly. -/
def Strength.next : Strength → Strength
  | aliased => or
  | or => and
  | and => not
  | not => predicate
  | predicate => additive
  | additive => multiplicative
  | multiplicative => unary
  | unary => atom
  | atom => atom

/-- What is to be read. -/
inductive Goal
  /-- An expression that binds at least as tightly. -/
  | level (s : Strength)
  /-- The operands of a conjunction or disjunction, one or more. -/
  | operands (op : LogicalOp)
  /-- The members of a list, one or more. -/
  | members

/-- `NOT`, if something is negated. -/
def negation (negated : Bool) : List Lexeme := if negated then [.word "NOT"] else []

/-- The escape character of a pattern, if it has one. -/
def escaping : Option Char → List Lexeme
  | none => []
  | some c => [.word "ESCAPE", .quoted (String.singleton c)]

/-- `Reads G g ts es`: the lexemes `ts` are read as the expressions `es`, of which there is one if
an expression is to be read. -/
inductive Reads (G : Grammar) : Goal → List Lexeme → List Expr → Prop
  | path {p : Path} (h : p.IsReadable G) : Reads G (.level .atom) [.word p.text] [.path p]
  | parameter {s : String} (h : isParameterName s = true) :
    Reads G (.level .atom) [.parameter s] [.parameter s none]
  | group {ts : List Lexeme} {e : Expr} (h : Reads G (.level G.outer) ts [e]) :
    Reads G (.level .atom) (.sign "(" :: (ts ++ [.sign ")"])) [e]
  /-- An expression that binds more tightly may stand wherever a weaker one may. -/
  | climb {s : Strength} {ts : List Lexeme} {e : Expr} (h : Reads G (.level s.next) ts [e]) :
    Reads G (.level s) ts [e]
  | negate {ts : List Lexeme} {e : Expr} (h : Reads G (.level .atom) ts [e]) :
    Reads G (.level .unary) (.sign "-" :: ts) [.negate e]
  /-- Sums and products group to the left. -/
  | arithmetic {op : ArithmeticOp} {ts us : List Lexeme} {l r : Expr}
    (hl : Reads G (.level op.strength) ts [l]) (hr : Reads G (.level op.strength.next) us [r]) :
    Reads G (.level op.strength) (ts ++ .sign op.symbol :: us) [.arithmetic op l r]
  | comparison {op : ComparisonOp} {ts us : List Lexeme} {l r : Expr}
    (hl : Reads G (.level .additive) ts [l]) (hr : Reads G (.level .additive) us [r]) :
    Reads G (.level .predicate) (ts ++ .sign op.symbol :: us) [.comparison op l r]
  | truth : Reads G (.level .predicate) [.word "1", .sign "=", .word "1"] [.logical .and []]
  | falsity : Reads G (.level .predicate) [.word "0", .sign "=", .word "1"] [.logical .or []]
  | like {ts us : List Lexeme} {v p : Expr} {escape : Option Char} {negated : Bool}
    (hv : Reads G (.level .additive) ts [v]) (hp : Reads G (.level .additive) us [p]) :
    Reads G (.level .predicate)
      (ts ++ (negation negated ++ .word "LIKE" :: (us ++ escaping escape)))
      [.like v p escape negated]
  | between {ts us vs : List Lexeme} {v low high : Expr} {negated : Bool}
    (hv : Reads G (.level .additive) ts [v]) (hlow : Reads G (.level .additive) us [low])
    (hhigh : Reads G (.level .additive) vs [high]) :
    Reads G (.level .predicate)
      (ts ++ (negation negated ++ .word "BETWEEN" :: (us ++ .word "AND" :: vs)))
      [.between v low high negated]
  | inList {ts us : List Lexeme} {v : Expr} {es : List Expr} {negated : Bool}
    (hv : Reads G (.level .additive) ts [v]) (hes : Reads G .members us es) :
    Reads G (.level .predicate)
      (ts ++ (negation negated ++ .word "IN" :: .sign "(" :: (us ++ [.sign ")"])))
      [.inList v es negated]
  | isNull {ts : List Lexeme} {v : Expr} {negated : Bool} (hv : Reads G (.level .additive) ts [v]) :
    Reads G (.level .predicate) (ts ++ .word "IS" :: (negation negated ++ [.word "NULL"]))
      [.isNull v negated]
  | not {ts : List Lexeme} {e : Expr} (h : Reads G (.level .not) ts [e]) :
    Reads G (.level .not) (.word "NOT" :: ts) [.not e]
  | logical {op : LogicalOp} {ts : List Lexeme} {es : List Expr} (h : Reads G (.operands op) ts es)
    (hes : 2 ≤ es.length) : Reads G (.level op.strength) ts [.logical op es]
  | operand {op : LogicalOp} {ts : List Lexeme} {e : Expr}
    (h : Reads G (.level op.strength.next) ts [e]) : Reads G (.operands op) ts [e]
  | operands {op : LogicalOp} {ts us : List Lexeme} {e : Expr} {es : List Expr}
    (h : Reads G (.level op.strength.next) ts [e]) (hes : Reads G (.operands op) us es) :
    Reads G (.operands op) (ts ++ .word op.symbol :: us) (e :: es)
  | member {ts : List Lexeme} {e : Expr} (h : Reads G (.level .or) ts [e]) : Reads G .members ts [e]
  | members {ts us : List Lexeme} {e : Expr} {es : List Expr} (h : Reads G (.level .or) ts [e])
    (hes : Reads G .members us es) : Reads G .members (ts ++ .sign "," :: us) (e :: es)

/-- The text can be read as the expression. -/
def Reading (G : Grammar) (text : String) (e : Expr) : Prop :=
  Reads G (.level G.outer) (lexemes text) [e]

/-! ### Paths and their texts -/

theorem Grammar.isNameChar_of_isName {G : Grammar} {s : String} (h : G.isName s = true) :
    ∀ c ∈ s.toList, isNameChar c = true :=
  List.all_eq_true.1 (isNameChar_of_isParameterName (isParameterName_of_isName h))

/-- A path that can be read is known by its text. -/
theorem Path.ofText_text {G : Grammar} {p : Path} (h : p.IsReadable G) :
    Path.ofText p.text = p := by
  refine Path.ofText_text_iff.2 ⟨h.1, fun s hs hpoint => ?_⟩
  exact absurd (Grammar.isNameChar_of_isName (h.2 s hs) _ hpoint) (by decide)

theorem Path.IsReadable.text_ne {G : Grammar} {p : Path} (h : p.IsReadable G) {w : String}
    (hw : ¬ (Path.ofText w).IsReadable G) : p.text ≠ w := by
  rintro rfl
  rw [Path.ofText_text h] at hw
  exact hw h

/-! ### With what an expression begins -/

/-- The strength of the weakest operators whose expressions begin with the lexeme: `NOT`, the
constants of an empty conjunction or disjunction, and the minus sign. -/
def Grammar.leading (G : Grammar) : Lexeme → Strength
  | .word w => match G with
    | full => if w = "NOT" then .not else if w = "1" ∨ w = "0" then .predicate else .atom
    | arithmetic => .atom
  | .sign s => if s = "-" then .unary else .atom
  | _ => .atom

/-- The strength with which the first expression of a goal binds at least. -/
def Goal.strength : Goal → Strength
  | level s => s
  | operands op => op.strength.next
  | members => .or

namespace Strength

theorem le_refl (s : Strength) : s ≤ s := Nat.le_refl s.rank

theorem le_trans {s t u : Strength} (h : s ≤ t) (h' : t ≤ u) : s ≤ u := Nat.le_trans h h'

theorem le_next (s : Strength) : s ≤ s.next := by cases s <;> decide

theorem le_atom (s : Strength) : s ≤ .atom := by cases s <;> decide

theorem rank_next (s : Strength) : s.next.rank = min (s.rank + 1) 8 := by cases s <;> rfl

theorem rank_le (s : Strength) : s.rank ≤ 8 := by cases s <;> decide

theorem rank_injective {s t : Strength} (h : s.rank = t.rank) : s = t := by
  cases s <;> cases t <;> first | rfl | cases h

theorem le_of_not_lt {s t : Strength} (h : ¬ s < t) : t ≤ s := Nat.le_of_not_lt h

theorem lt_of_not_le {s t : Strength} (h : ¬ s ≤ t) : t < s := Nat.lt_of_not_le h

theorem lt_of_le_of_ne {s t : Strength} (h : s ≤ t) (hne : s ≠ t) : s < t :=
  Nat.lt_of_le_of_ne h fun heq => hne (rank_injective heq)

theorem next_le_of_lt {s t : Strength} (h : s < t) : s.next ≤ t := by
  have hs := s.rank_next
  rw [lt_iff_rank] at h
  rw [le_iff_rank]
  omega

end Strength

/-- What is read begins with a lexeme that is not the sign of a weaker operator. -/
theorem Reads.exists_head {G : Grammar} {g : Goal} {ts : List Lexeme} {es : List Expr}
    (h : Reads G g ts es) : ∃ t us, ts = t :: us ∧ g.strength ≤ G.leading t := by
  -- the first part decides, and it binds at least as tightly as the whole
  induction h with
  | path h =>
    refine ⟨_, _, rfl, ?_⟩
    cases G with
    | full =>
      have hnot := h.text_ne (w := "NOT") (by decide)
      have hone := h.text_ne (w := "1") (by decide)
      have hzero := h.text_ne (w := "0") (by decide)
      simp [Grammar.leading, hnot, hone, hzero, Goal.strength, Strength.le_refl]
    | arithmetic => exact Strength.le_refl _
  | parameter _ => exact ⟨_, _, rfl, Strength.le_refl _⟩
  | group _ _ => exact ⟨_, _, rfl, Strength.le_refl _⟩
  | climb _ ih =>
    obtain ⟨t, us, rfl, hle⟩ := ih
    exact ⟨t, us, rfl, Strength.le_trans (Strength.le_next _) hle⟩
  | negate _ _ => exact ⟨_, _, rfl, Strength.le_refl _⟩
  | arithmetic _ _ ihl _ =>
    obtain ⟨t, us, rfl, hle⟩ := ihl
    exact ⟨t, _, rfl, hle⟩
  | comparison _ _ ihl _ =>
    obtain ⟨t, us, rfl, hle⟩ := ihl
    exact ⟨t, _, rfl, Strength.le_trans (Strength.le_next _) hle⟩
  | truth => exact ⟨_, _, rfl, by cases G <;> decide⟩
  | falsity => exact ⟨_, _, rfl, by cases G <;> decide⟩
  | like _ _ ihv _ =>
    obtain ⟨t, us, rfl, hle⟩ := ihv
    exact ⟨t, _, rfl, Strength.le_trans (Strength.le_next _) hle⟩
  | between _ _ _ ihv _ _ =>
    obtain ⟨t, us, rfl, hle⟩ := ihv
    exact ⟨t, _, rfl, Strength.le_trans (Strength.le_next _) hle⟩
  | inList _ _ ihv _ =>
    obtain ⟨t, us, rfl, hle⟩ := ihv
    exact ⟨t, _, rfl, Strength.le_trans (Strength.le_next _) hle⟩
  | isNull _ ihv =>
    obtain ⟨t, us, rfl, hle⟩ := ihv
    exact ⟨t, _, rfl, Strength.le_trans (Strength.le_next _) hle⟩
  | not _ _ => exact ⟨_, _, rfl, by cases G <;> decide⟩
  | logical _ _ ih =>
    obtain ⟨t, us, rfl, hle⟩ := ih
    exact ⟨t, us, rfl, Strength.le_trans (Strength.le_next _) hle⟩
  | operand _ ih => exact ih
  | operands _ _ ih _ =>
    obtain ⟨t, us, rfl, hle⟩ := ih
    exact ⟨t, _, rfl, hle⟩
  | member _ ih => exact ih
  | members _ _ ih _ =>
    obtain ⟨t, us, rfl, hle⟩ := ih
    exact ⟨t, _, rfl, hle⟩

theorem Reads.ne_nil {G : Grammar} {g : Goal} {ts : List Lexeme} {es : List Expr}
    (h : Reads G g ts es) : ts ≠ [] := by
  obtain ⟨t, us, rfl, -⟩ := h.exists_head
  exact List.cons_ne_nil t us

/-- What is read at some level is read at every weaker one. -/
theorem Reads.weaken {G : Grammar} {s t : Strength} {ts : List Lexeme} {e : Expr}
    (h : Reads G (.level t) ts [e]) (hle : s ≤ t) : Reads G (.level s) ts [e] := by
  by_cases hlt : s < t
  · -- one level after the other
    have hnext := Strength.next_le_of_lt hlt
    exact .climb (h.weaken hnext)
  · have heq : s.rank = t.rank := Nat.le_antisymm hle (Strength.le_of_not_lt hlt)
    rw [Strength.rank_injective heq]
    exact h
termination_by t.rank - s.rank
decreasing_by
  have hs := s.rank_next
  have ht := t.rank_le
  rw [Strength.lt_iff_rank] at hlt
  omega

end PersistenceQuery
