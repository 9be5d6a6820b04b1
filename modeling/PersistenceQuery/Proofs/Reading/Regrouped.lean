import PersistenceQuery.Proofs.Reading.Operand

/-!
# What is read of a written expression

The text of an expression has one reading.  It is the expression itself, except that operands are
regrouped where parentheses were left out: the operands of a conjunction inside a conjunction
become operands of the outer one, and sums and products group to the left.

## Main definitions

* `ArithmeticOp.regroups` — the operators that may change places with an operator on their right.
* `Regroups` — the expressions that a text without these parentheses does not tell apart.
* `Grafts`, `Splices` — how an operand joins a sum or product, and a conjunction or disjunction.

## Main results

* `Readable.exists_reads` — an expression is read at its own strength, up to regrouping.
* `Readable.exists_reading` — **its text has one reading, and it is the expression, regrouped.**
-/

namespace PersistenceQuery

/-- `a ∘ (b • c)` may be written and read as `(a ∘ b) • c`. -/
def ArithmeticOp.regroups : ArithmeticOp → ArithmeticOp → Bool
  | .add, .add | .add, .sub | .mul, .mul | .mul, .div => true
  | _, _ => false

/-- `Regroups e f`: the rules make `f` of `e`, at the root or anywhere below. -/
inductive Regroups : Expr → Expr → Prop
  /-- A single operand is itself. -/
  | single (op : LogicalOp) (e : Expr) : Regroups (.logical op [e]) e
  /-- The operands of an inner conjunction stand in the outer one. -/
  | splice (op : LogicalOp) (as bs cs : List Expr) (hbs : 2 ≤ bs.length) :
    Regroups (.logical op (as ++ .logical op bs :: cs)) (.logical op (as ++ bs ++ cs))
  /-- Sums and products group to the left. -/
  | rotate {op inner : ArithmeticOp} (h : op.regroups inner = true) (a b c : Expr) :
    Regroups (.arithmetic op a (.arithmetic inner b c)) (.arithmetic inner (.arithmetic op a b) c)
  /-- The text gives the name of a parameter, not its value. -/
  | parameter (s : String) (v : Option Value) : Regroups (.parameter s v) (.parameter s none)
  | refl (e : Expr) : Regroups e e
  | trans {e f g : Expr} (h : Regroups e f) (h' : Regroups f g) : Regroups e g
  | arithmetic (op : ArithmeticOp) {l l' r r' : Expr} (hl : Regroups l l') (hr : Regroups r r') :
    Regroups (.arithmetic op l r) (.arithmetic op l' r')
  | negate {e e' : Expr} (h : Regroups e e') : Regroups (.negate e) (.negate e')
  | comparison (op : ComparisonOp) {l l' r r' : Expr} (hl : Regroups l l') (hr : Regroups r r') :
    Regroups (.comparison op l r) (.comparison op l' r')
  | logical (op : LogicalOp) (as bs : List Expr) {e e' : Expr} (h : Regroups e e') :
    Regroups (.logical op (as ++ e :: bs)) (.logical op (as ++ e' :: bs))
  | not {e e' : Expr} (h : Regroups e e') : Regroups (.not e) (.not e')
  | like (escape : Option Char) (negated : Bool) {v v' p p' : Expr} (hv : Regroups v v')
    (hp : Regroups p p') : Regroups (.like v p escape negated) (.like v' p' escape negated)
  | between (negated : Bool) {v v' low low' high high' : Expr} (hv : Regroups v v')
    (hlow : Regroups low low') (hhigh : Regroups high high') :
    Regroups (.between v low high negated) (.between v' low' high' negated)
  | inList (negated : Bool) {v v' : Expr} (es : List Expr) (hv : Regroups v v') :
    Regroups (.inList v es negated) (.inList v' es negated)
  | member (negated : Bool) (v : Expr) (as bs : List Expr) {e e' : Expr} (h : Regroups e e') :
    Regroups (.inList v (as ++ e :: bs) negated) (.inList v (as ++ e' :: bs) negated)
  | isNull (negated : Bool) {v v' : Expr} (hv : Regroups v v') :
    Regroups (.isNull v negated) (.isNull v' negated)

variable {G : Grammar}

/-! ### Sums and products on the right -/

theorem ArithmeticOp.regroups_of_isAssociative {op inner : ArithmeticOp}
    (hop : op.isAssociative = true) (hinner : inner.strength = op.strength) :
    op.regroups inner = true := by
  cases op <;> cases inner <;> first
    | rfl
    | exact absurd hop (by decide)
    | exact absurd hinner (by decide)

/-- `Grafts op l r e`: `l` joins the first of the operands that `r` begins with. -/
inductive Grafts (op : ArithmeticOp) (l : Expr) : Expr → Expr → Prop
  | behind (r : Expr) : Grafts op l r (.arithmetic op l r)
  | under {inner : ArithmeticOp} (h : inner.strength = op.strength) {a e : Expr} (b : Expr)
    (ha : Grafts op l a e) : Grafts op l (.arithmetic inner a b) (.arithmetic inner e b)

theorem Grafts.regroups {op : ArithmeticOp} (hop : op.isAssociative = true) {l r e : Expr}
    (h : Grafts op l r e) : Regroups (.arithmetic op l r) e := by
  induction h with
  | behind r => exact .refl _
  | @under inner hinner a e b _ ih =>
    have hrotate := ArithmeticOp.regroups_of_isAssociative hop hinner
    exact .trans (.rotate hrotate l a b) (.arithmetic inner ih (.refl b))

/-- A sum behind a sum, without parentheses, joins it from the left. -/
theorem Reads.exists_grafts {op : ArithmeticOp} {ts : List Lexeme} {l : Expr}
    (hl : Reads G (.level op.strength) ts [l]) {g : Goal} {us : List Lexeme} {es : List Expr}
    (h : Reads G g us es) (hg : g = .level op.strength) {r : Expr} (hr : es = [r]) :
    ∃ e, Reads G (.level op.strength) (ts ++ .sign op.symbol :: us) [e] ∧ Grafts op l r e := by
  induction h generalizing r with
  | climb h _ =>
    obtain rfl := Goal.level.inj hg
    obtain rfl := List.singleton_inj.1 hr
    exact ⟨_, .arithmetic hl h, .behind _⟩
  | @arithmetic inner us vs a b ha hb iha _ =>
    have hstrength := Goal.level.inj hg
    obtain rfl := List.singleton_inj.1 hr
    -- the left part of the right operand comes first
    obtain ⟨e, he, hgrafts⟩ := iha hg rfl
    rw [← hstrength] at he
    refine ⟨.arithmetic inner e b, ?_, .under hstrength b hgrafts⟩
    have hread := Reads.arithmetic he hb
    rw [hstrength, List.append_assoc] at hread
    exact hread
  | @logical inner _ _ _ _ _ =>
    have hstrength := Goal.level.inj hg
    cases op <;> cases inner <;> cases hstrength
  | operand | operands | member | members => cases hg
  | _ =>
    have hstrength := Goal.level.inj hg
    cases op <;> cases hstrength

/-! ### Conjunctions and disjunctions -/

/-- `Splices op e fs`: as an operand, `e` is one operand or the several that it has itself. -/
def Splices (op : LogicalOp) (e : Expr) (fs : List Expr) : Prop :=
  fs = [e] ∨ 2 ≤ fs.length ∧ e = .logical op fs

theorem Splices.ne_nil {op : LogicalOp} {e : Expr} {fs : List Expr} (h : Splices op e fs) :
    fs ≠ [] := by
  rintro rfl
  rcases h with h | ⟨h, -⟩
  · cases h
  · exact absurd h (by decide)

theorem Splices.regroups {op : LogicalOp} {e : Expr} {fs : List Expr} (h : Splices op e fs)
    (as bs : List Expr) :
    Regroups (.logical op (as ++ e :: bs)) (.logical op (as ++ fs ++ bs)) := by
  rcases h with rfl | ⟨hfs, rfl⟩
  · rw [List.append_assoc]
    exact .refl _
  · exact .splice op as fs bs hfs

theorem Reads.operands_append {op : LogicalOp} {g : Goal} {ts us : List Lexeme}
    {es fs : List Expr} (h : Reads G g ts es) (hg : g = .operands op)
    (hfs : Reads G (.operands op) us fs) :
    Reads G (.operands op) (ts ++ .word op.symbol :: us) (es ++ fs) := by
  induction h with
  | operand h _ =>
    cases hg
    exact .operands h hfs
  | operands h _ _ ih =>
    cases hg
    rw [List.append_assoc, List.cons_append]
    exact .operands h (ih rfl)
  | _ => cases hg

/-- An operand is one operand of what is read, or it is a conjunction whose operands become
operands of the outer one. -/
theorem Reads.operands_of_level {op : LogicalOp} {g : Goal} {ts : List Lexeme} {es : List Expr}
    {e : Expr} (h : Reads G g ts es) (hg : g = .level op.strength) (he : es = [e]) :
    ∃ fs, Reads G (.operands op) ts fs ∧ Splices op e fs := by
  cases h with
  | climb h =>
    obtain rfl := Goal.level.inj hg
    obtain rfl := List.singleton_inj.1 he
    exact ⟨[_], .operand h, .inl rfl⟩
  | @logical inner _ fs h hfs =>
    have hinner : inner = op := by
      cases op <;> cases inner <;> first | rfl | cases Goal.level.inj hg
    obtain rfl := List.singleton_inj.1 he
    subst hinner
    exact ⟨fs, h, .inr ⟨hfs, rfl⟩⟩
  | @arithmetic inner _ _ _ _ _ _ =>
    have hstrength := Goal.level.inj hg
    cases op <;> cases inner <;> cases hstrength
  | operand | operands | member | members => cases hg
  | _ =>
    have hstrength := Goal.level.inj hg
    cases op <;> cases hstrength

section
variable {R : Expr → Expr → Prop}

/-- `Operands R op es fss`: the expressions `es`, each after `R`, become operands of `op`. -/
def Operands (R : Expr → Expr → Prop) (op : LogicalOp) : List Expr → List (List Expr) → Prop :=
  List.Forall₂ fun e fs => ∃ e', R e e' ∧ Splices op e' fs

/-- The operands of a conjunction are read one after the other, those of inner conjunctions among
them. -/
theorem Reads.exists_operands (op : LogicalOp) {e : Expr} {es : List Expr}
    (h : ∀ f ∈ e :: es, .or ≤ f.strength ∧
      ∃ f', Reads .full (.level f.strength) f.tokens [f'] ∧ R f f') :
    ∃ fss, Reads .full (.operands op) (e.operandTokens op.strength .chained
          ++ es.flatMap fun g => .word op.symbol :: g.operandTokens op.strength .chained)
        fss.flatten ∧
      Operands R op (e :: es) fss := by
  obtain ⟨hor, e', he', hfirst⟩ := h e List.mem_cons_self
  have hread := Reads.operand_left op.strength (.inr rfl) he' hor
  obtain ⟨fs, hfs, hsplices⟩ := hread.operands_of_level rfl rfl
  cases es with
  | nil =>
    refine ⟨[fs], ?_, .cons ⟨e', hfirst, hsplices⟩ .nil⟩
    rw [List.flatMap_nil, List.append_nil, List.flatten_singleton]
    exact hfs
  | cons g es =>
    obtain ⟨gss, hgss, hrest⟩ := Reads.exists_operands op
      fun f hf => h f (List.mem_cons_of_mem _ hf)
    refine ⟨fs :: gss, ?_, .cons ⟨e', hfirst, hsplices⟩ hrest⟩
    rw [List.flatMap_cons, List.cons_append, List.flatten_cons]
    exact hfs.operands_append rfl hgss

theorem Operands.length_le {op : LogicalOp} {es : List Expr} {fss : List (List Expr)}
    (h : Operands R op es fss) : es.length ≤ fss.flatten.length := by
  induction h with
  | nil => exact Nat.le_refl _
  | cons h _ ih =>
    obtain ⟨e', -, hsplices⟩ := h
    have hlength := List.length_pos_iff.2 hsplices.ne_nil
    rw [List.length_cons, List.flatten_cons, List.length_append]
    omega

theorem Operands.regroups {op : LogicalOp} {es : List Expr} {fss : List (List Expr)}
    (h : Operands Regroups op es fss) (as : List Expr) :
    Regroups (.logical op (as ++ es)) (.logical op (as ++ fss.flatten)) := by
  induction h generalizing as with
  | nil => exact .refl _
  | @cons e fs es fss h _ ih =>
    obtain ⟨e', he, hsplices⟩ := h
    have hrest := ih (as ++ fs)
    rw [List.append_assoc as fs fss.flatten] at hrest
    exact ((Regroups.logical op as es he).trans (hsplices.regroups as es)).trans hrest

/-- The members of a list are read one after the other. -/
theorem Reads.exists_members {e : Expr} {es : List Expr}
    (h : ∀ f ∈ e :: es, .or ≤ f.strength ∧
      ∃ f', Reads .full (.level f.strength) f.tokens [f'] ∧ R f f') :
    ∃ fs, Reads .full .members (e.tokens ++ es.flatMap fun f => .sign "," :: f.tokens) fs ∧
      List.Forall₂ R (e :: es) fs := by
  induction es generalizing e with
  | nil =>
    obtain ⟨hor, e', he', hfirst⟩ := h e List.mem_cons_self
    refine ⟨[e'], ?_, .cons hfirst .nil⟩
    rw [List.flatMap_nil, List.append_nil]
    exact .member (he'.weaken hor)
  | cons g es ih =>
    obtain ⟨hor, e', he', hfirst⟩ := h e List.mem_cons_self
    obtain ⟨fs, hfs, hrest⟩ := ih fun f hf => h f (List.mem_cons_of_mem _ hf)
    refine ⟨e' :: fs, ?_, .cons hfirst hrest⟩
    rw [List.flatMap_cons, List.cons_append]
    exact .members (he'.weaken hor) hfs

end

theorem Regroups.members (v : Expr) (negated : Bool) {es fs : List Expr}
    (h : List.Forall₂ Regroups es fs) (as : List Expr) :
    Regroups (.inList v (as ++ es) negated) (.inList v (as ++ fs) negated) := by
  induction h generalizing as with
  | nil => exact .refl _
  | @cons e f es fs h _ ih =>
    have hrest := ih (as ++ [f])
    rw [List.append_assoc, List.append_assoc] at hrest
    exact (Regroups.member negated v as es h).trans hrest

/-! ### Expressions -/

namespace Readable

/-- An expression is read at its own strength, up to regrouping. -/
theorem exists_reads {e : Expr} (h : Readable .full e) :
    ∃ f, Reads .full (.level e.strength) e.tokens [f] ∧ Regroups e f := by
  induction h with
  | path h =>
    rw [Expr.tokens_path h]
    exact ⟨_, .path h, .refl _⟩
  | @parameter s v h =>
    rw [Expr.tokens_parameter]
    exact ⟨_, .parameter h, .parameter s v⟩
  | @arithmetic op l r hl hr ihl ihr =>
    obtain ⟨l', hl', hregroupsl⟩ := ihl
    obtain ⟨r', hr', hregroupsr⟩ := ihr
    have hleft := Reads.operand_left op.strength (.inl rfl) hl' hl.or_le_strength
    have hboth := Regroups.arithmetic op hregroupsl hregroupsr
    rw [Expr.tokens_arithmetic, Expr.strength]
    -- the parentheses on the right are left out only for the same associative operator
    rcases op.rightSide_cases r with ⟨hside, hop⟩ | hside
    · have hright := Reads.operand_left op.strength (.inr rfl) hr' hr.or_le_strength
      obtain ⟨f, hf, hgrafts⟩ := hleft.exists_grafts hright rfl rfl
      rw [hside]
      exact ⟨f, hf, hboth.trans (hgrafts.regroups hop)⟩
    · have hright := Reads.operand_strict op.strength (.inl rfl) hr' hr.or_le_strength
      rw [hside]
      exact ⟨_, .arithmetic hleft hright, hboth⟩
  | negate h ih =>
    obtain ⟨f, hf, hregroups⟩ := ih
    have hvalue := hf.operand_strict .unary (.inr rfl) h.or_le_strength
    rw [Expr.tokens_negate h.isNegativeLiteral_eq_false]
    exact ⟨_, .negate hvalue, .negate hregroups⟩
  | comparison op hl hr ihl ihr =>
    obtain ⟨l', hl', hregroupsl⟩ := ihl
    obtain ⟨r', hr', hregroupsr⟩ := ihr
    have hleft := hl'.operand_strict .predicate (.inr rfl) hl.or_le_strength
    have hright := hr'.operand_strict .predicate (.inr rfl) hr.or_le_strength
    rw [Expr.tokens_comparison]
    exact ⟨_, .comparison hleft hright, .comparison op hregroupsl hregroupsr⟩
  | @logical op es h ih =>
    rcases es with _ | ⟨e, _ | ⟨f, es⟩⟩
    · -- the constants stand for nothing else
      have hand : lexemes LogicalOp.and.identity = [.word "1", .sign "=", .word "1"] := by decide
      have hor : lexemes LogicalOp.or.identity = [.word "0", .sign "=", .word "1"] := by decide
      rw [Expr.tokens_logical_nil]
      cases op with
      | and =>
        rw [hand]
        exact ⟨_, .truth, .refl _⟩
      | or =>
        rw [hor]
        exact ⟨_, .falsity, .refl _⟩
    · obtain ⟨f, hf, hregroups⟩ := ih e List.mem_cons_self
      rw [Expr.tokens_logical_singleton]
      exact ⟨f, hf, (Regroups.single op e).trans hregroups⟩
    · obtain ⟨fss, hfss, hoperands⟩ := Reads.exists_operands op
        fun g hg => ⟨(h g hg).or_le_strength, ih g hg⟩
      have htwo : 2 ≤ fss.flatten.length :=
        Nat.le_trans (Nat.le_add_left 2 es.length) hoperands.length_le
      rw [Expr.tokens_logical]
      exact ⟨_, .logical hfss htwo, hoperands.regroups []⟩
  | not h ih =>
    obtain ⟨f, hf, hregroups⟩ := ih
    have hvalue := hf.operand_left .not (.inl rfl) h.or_le_strength
    rw [Expr.tokens_not]
    exact ⟨_, .not hvalue, .not hregroups⟩
  | like escape negated hv hp ihv ihp =>
    obtain ⟨v', hv', hregroupsv⟩ := ihv
    obtain ⟨p', hp', hregroupsp⟩ := ihp
    have hvalue := hv'.operand_strict .predicate (.inr rfl) hv.or_le_strength
    have hpattern := hp'.operand_strict .predicate (.inr rfl) hp.or_le_strength
    rw [Expr.tokens_like]
    exact ⟨_, .like hvalue hpattern, .like escape negated hregroupsv hregroupsp⟩
  | between negated hv hlow hhigh ihv ihlow ihhigh =>
    obtain ⟨v', hv', hregroupsv⟩ := ihv
    obtain ⟨low', hlow', hregroupslow⟩ := ihlow
    obtain ⟨high', hhigh', hregroupshigh⟩ := ihhigh
    have hvalue := hv'.operand_strict .predicate (.inr rfl) hv.or_le_strength
    have hfrom := hlow'.operand_strict .predicate (.inr rfl) hlow.or_le_strength
    have hto := hhigh'.operand_strict .predicate (.inr rfl) hhigh.or_le_strength
    rw [Expr.tokens_between]
    exact ⟨_, .between hvalue hfrom hto,
      .between negated hregroupsv hregroupslow hregroupshigh⟩
  | @inList v es negated hne hv hes ihv ihes =>
    obtain ⟨v', hv', hregroupsv⟩ := ihv
    have hvalue := hv'.operand_strict .predicate (.inr rfl) hv.or_le_strength
    cases es with
    | nil => exact absurd rfl hne
    | cons e es =>
      obtain ⟨fs, hfs, hmembers⟩ := Reads.exists_members fun g hg =>
        ⟨(hes g hg).or_le_strength, ihes g hg⟩
      rw [Expr.tokens_inList]
      exact ⟨_, .inList hvalue hfs,
        (Regroups.members v negated hmembers []).trans (.inList negated fs hregroupsv)⟩
  | isNull negated hv ih =>
    obtain ⟨v', hv', hregroups⟩ := ih
    have hvalue := hv'.operand_strict .predicate (.inr rfl) hv.or_le_strength
    rw [Expr.tokens_isNull]
    exact ⟨_, .isNull hvalue, .isNull negated hregroups⟩

/-- The text of an expression has one reading, and it is the expression, regrouped. -/
theorem exists_reading {e : Expr} (h : Readable .full e) {b : Binder}
    (hbound : ∀ s v, Expr.parameter s v ∈ e.nodes → (b.valueFor s v).isSome = true) :
    ∃ r f, (Part.expr e).render .standard b = .ok r ∧ Reading .full r.text f ∧
      (∀ g, Reading .full r.text g → g = f) ∧ Regroups e f := by
  obtain ⟨f, hf, hregroups⟩ := h.exists_reads
  obtain ⟨r, hr, hread⟩ := h.exists_rendered_reading hbound hf h.or_le_strength
  exact ⟨r, f, hr, (hread f).2 rfl, fun g => (hread g).1, hregroups⟩

end Readable

/-- A price for an amount, and a condition inside the condition. -/
def affordable : Expr :=
  .logical .and [
    .logical .and [
      .isNull (.path ⟨["b", "soldAt"]⟩) false,
      .not (.logical .or [])],
    .comparison .lt
      (.arithmetic .mul (.path ⟨["b", "price"]⟩)
        (.arithmetic .mul
          (.arithmetic .div (.path ⟨["b", "amount"]⟩) (.path ⟨["b", "size"]⟩))
          (.negate (.path ⟨["b", "discount"]⟩))))
      (.parameter "limit" none)]

theorem exists_reading_affordable :
    ∃ r f, (Part.expr affordable).render .standard
        (.start .placeholder (some (.ofList [("limit", .int 20)]))) = .ok r ∧
      Reading .full r.text f ∧ (∀ g, Reading .full r.text g → g = f) ∧ Regroups affordable f := by
  have hpath : ∀ s, Grammar.full.isName s = true → Readable .full (.path ⟨["b", s]⟩) := fun s hs =>
    .path ⟨List.cons_ne_nil _ _, by simpa using ⟨by decide, hs⟩⟩
  have hreadable : Readable .full affordable := by
    refine .logical _ (List.forall_mem_cons.2 ⟨?_, List.forall_mem_singleton.2 ?_⟩)
    · refine .logical _ (List.forall_mem_cons.2 ⟨?_, List.forall_mem_singleton.2 ?_⟩)
      · exact .isNull _ (hpath _ (by decide))
      · exact .not (.logical _ (List.forall_mem_nil _))
    · refine .comparison _ (.arithmetic _ (hpath _ (by decide)) (.arithmetic _ ?_ ?_)) ?_
      · exact .arithmetic _ (hpath _ (by decide)) (hpath _ (by decide))
      · exact .negate (hpath _ (by decide))
      · exact .parameter _ (by decide)
  refine hreadable.exists_reading ?_
  intro s v hs
  have hlimit : s = "limit" ∧ v = none := by
    simpa [affordable, Expr.nodes, nodesOfList] using hs
  rw [hlimit.1, hlimit.2]
  decide

end PersistenceQuery
