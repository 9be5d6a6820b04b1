import PersistenceQuery.Proofs.Query.Occurrence
import PersistenceQuery.Proofs.Rendering.Clear

/-!
# Minus signs that follow each other

A minus sign in front of an operand is written directly in front of it, and a negative literal
brings another one.  Whether two of them meet is decided where an expression is negated: everywhere
else there is a space, a parenthesis or a comma behind a sign.  A negated literal is put in
parentheses if it is negative, but not if it stands alone in a conjunction or disjunction, of which
nothing else is written.

## Main definitions

* `Emission.isSigned`, `Emission.Guarded` — an emission that writes a minus sign first, and a
  layout in which none of them follows a minus sign.
* `Expr.HidesMinus` — a negative literal that stands alone in conjunctions or disjunctions.
* `Expr.IsExposed` — a negation that does not see the minus sign of its operand.

## Main results

* `Expr.startsUnsigned_write` — what is written for an expression that binds most tightly begins
  with a minus sign only if it is a negative literal, hidden or not.
* `Expr.guarded_write_step` — whether signs meet in an expression, from the expressions inside it.
* `Query.guarded_write` — signs meet in a query only where a negation is exposed.
-/

namespace PersistenceQuery

open Text

/-! ### Layouts -/

/-- The character is no minus sign. -/
def isNoMinus (c : Char) : Bool := c != '-'

namespace Emission

/-- The token of the emission begins with a minus sign. -/
def isSigned (mode : Mode) : Emission → Bool
  | .word w => w == "-"
  | .value v => mode == .inline && v.isNegative
  | _ => false

/-- A word is a minus sign or holds none. -/
def isSimple : Emission → Bool
  | .word w => w == "-" || w.toList.all isNoMinus
  | _ => true

/-- No minus sign directly follows another, and words hold no other ones. -/
structure Guarded (mode : Mode) (es : List Emission) : Prop where
  apart : es.IsChain fun e f => e = .word "-" → f.isSigned mode = false
  simple : ∀ e ∈ es, e.isSimple = true

/-- The first emission is not signed. -/
def StartsUnsigned (mode : Mode) (es : List Emission) : Prop :=
  ∀ f ∈ es.head?, f.isSigned mode = false

section
variable {mode : Mode} {e : Emission} {as bs es : List Emission}

theorem guarded_nil : Guarded mode [] := ⟨List.isChain_nil, List.forall_mem_nil _⟩

theorem guarded_singleton (h : e.isSimple = true) : Guarded mode [e] :=
  ⟨List.isChain_singleton _, List.forall_mem_singleton.2 h⟩

theorem startsUnsigned_nil : StartsUnsigned mode [] := fun _ hf => absurd hf (Option.not_mem_none _)

theorem startsUnsigned_cons (h : e.isSigned mode = false) : StartsUnsigned mode (e :: es) := by
  rintro f ⟨⟩
  exact h

theorem guarded_append (h : StartsUnsigned mode bs) :
    Guarded mode (as ++ bs) ↔ Guarded mode as ∧ Guarded mode bs := by
  constructor
  · rintro ⟨hchain, hsimple⟩
    obtain ⟨has, hbs, -⟩ := List.isChain_append.1 hchain
    obtain ⟨has', hbs'⟩ := List.forall_mem_append.1 hsimple
    exact ⟨⟨has, has'⟩, ⟨hbs, hbs'⟩⟩
  · rintro ⟨has, hbs⟩
    exact ⟨List.isChain_append.2 ⟨has.apart, hbs.apart, fun a _ f hf _ => h f hf⟩,
      List.forall_mem_append.2 ⟨has.simple, hbs.simple⟩⟩

theorem guarded_cons (hsimple : e.isSimple = true)
    (h : e = .word "-" → StartsUnsigned mode es) : Guarded mode (e :: es) ↔ Guarded mode es := by
  constructor
  · rintro ⟨hchain, hall⟩
    exact ⟨(List.isChain_cons.1 hchain).2, (List.forall_mem_cons.1 hall).2⟩
  · rintro ⟨hchain, hall⟩
    exact ⟨List.isChain_cons.2 ⟨fun f hf heq => h heq f hf, hchain⟩,
      List.forall_mem_cons.2 ⟨hsimple, hall⟩⟩

theorem guarded_space : Guarded mode (.space :: es) ↔ Guarded mode es :=
  guarded_cons rfl nofun

theorem guarded_word {w : String} (hw : (word w).isSimple = true) (h : StartsUnsigned mode es) :
    Guarded mode (.word w :: es) ↔ Guarded mode es :=
  guarded_cons hw fun _ => h

/-- Behind a minus sign there must not be another. -/
theorem guarded_minus :
    Guarded mode (.word "-" :: es) ↔ StartsUnsigned mode es ∧ Guarded mode es := by
  constructor
  · intro h
    have hstart : StartsUnsigned mode es := fun f hf => (List.isChain_cons.1 h.apart).1 f hf rfl
    exact ⟨hstart, (guarded_word rfl hstart).1 h⟩
  · rintro ⟨hstart, hes⟩
    exact (guarded_word rfl hstart).2 hes

theorem guarded_spaced :
    Guarded mode (as ++ .space :: bs) ↔ Guarded mode as ∧ Guarded mode bs := by
  rw [guarded_append (startsUnsigned_cons rfl), guarded_space]

theorem guarded_keyword {w : String} (hw : (word w).isSimple = true) :
    Guarded mode (as ++ keyword w ++ bs) ↔ Guarded mode as ∧ Guarded mode bs := by
  have h : as ++ keyword w ++ bs = as ++ .space :: (.word w :: .space :: bs) := by simp [keyword]
  rw [h, guarded_spaced, guarded_word hw (startsUnsigned_cons rfl), guarded_space]

/-- A word in front, and another one that may follow it. -/
theorem guarded_lead {w w' : String} (hw : (word w).isSimple = true)
    (hw' : (word w').isSimple = true) (preceded : Bool) :
    Guarded mode (.word w :: .space :: (if preceded then [.word w', .space] else []) ++ es)
      ↔ Guarded mode es := by
  cases preceded with
  | false => exact (guarded_word hw (startsUnsigned_cons rfl)).trans guarded_space
  | true =>
    exact (guarded_word hw (startsUnsigned_cons rfl)).trans (guarded_space.trans
      ((guarded_word hw' (startsUnsigned_cons rfl)).trans guarded_space))

theorem guarded_ending {w : String} (hw : (word w).isSimple = true) :
    Guarded mode (as ++ keyword w) ↔ Guarded mode as := by
  rw [← List.append_nil (as ++ keyword w), guarded_keyword hw]
  exact and_iff_left guarded_nil

theorem guarded_parenthesized : Guarded mode (parenthesized es) ↔ Guarded mode es := by
  have hopening : ∀ es, Guarded mode (.opening :: es) ↔ Guarded mode es :=
    fun es => guarded_cons rfl nofun
  rw [parenthesized, hopening, guarded_append (startsUnsigned_cons rfl)]
  exact and_iff_left (guarded_singleton rfl)

theorem guarded_applied {w : String} (hw : (word w).isSimple = true) :
    Guarded mode (.word w :: parenthesized es) ↔ Guarded mode es :=
  (guarded_word hw (startsUnsigned_cons rfl)).trans guarded_parenthesized

theorem guarded_operand {parent child : Strength} {side : Side} :
    Guarded mode (operand parent side child es) ↔ Guarded mode es := by
  rw [operand]
  split
  · exact guarded_parenthesized
  · exact Iff.rfl

/-- A separator is no minus sign, so no sign can follow another behind it. -/
theorem guarded_separated {w : String} (hw : (word w).isSimple = true ∧ w ≠ "-")
    {ls : List (List Emission)} :
    Guarded mode (separated w ls) ↔ ∀ l ∈ ls, Guarded mode l := by
  have hword : ∀ es, Guarded mode (.word w :: es) ↔ Guarded mode es := fun es =>
    guarded_cons hw.1 fun heq => absurd (Emission.word.inj heq) hw.2
  have hstart : ∀ ls : List (List Emission),
      StartsUnsigned mode (ls.flatMap (Emission.word w :: ·)) := by
    rintro (_ | ⟨l, ls⟩)
    · exact startsUnsigned_nil
    · exact startsUnsigned_cons (beq_false_of_ne hw.2)
  have hrest : ∀ ls : List (List Emission),
      Guarded mode (ls.flatMap (Emission.word w :: ·)) ↔ ∀ l ∈ ls, Guarded mode l := by
    intro ls
    induction ls with
    | nil => exact iff_of_true guarded_nil (List.forall_mem_nil _)
    | cons l ls ih =>
      rw [List.flatMap_cons, guarded_append (hstart ls), hword, ih, List.forall_mem_cons]
  cases ls with
  | nil => exact iff_of_true guarded_nil (List.forall_mem_nil _)
  | cons l ls => rw [separated_cons, guarded_append (hstart ls), hrest, List.forall_mem_cons]

theorem guarded_call {w : String} (hw : (word w).isSimple = true) {ls : List (List Emission)} :
    Guarded mode (call w ls) ↔ ∀ l ∈ ls, Guarded mode l := by
  rw [call, guarded_applied hw, guarded_separated (by decide)]

end
end Emission

open Emission

/-! ### Parts that are written -/

/-- A part that the standard dialect does not refuse is written in its layout; the words of its
calls hold no minus signs. -/
theorem Part.exists_write {p : Part} (h : Dialect.standard.refusal? p = none) :
    ∃ w, Dialect.standard.write p = p.layout .standard w
      ∧ (word w).isSimple = true ∧ w ≠ "-" := by
  have hwords : ∀ r ∈ Rule.standard, (word r.keyword).isSimple = true ∧ r.keyword ≠ "-" := by
    decide +kernel
  rw [Dialect.refusal?] at h
  cases hr : Dialect.standard.rule? p.kind with
  | none =>
    rw [hr] at h
    cases h
  | some r =>
    simp only [hr, ite_eq_left_iff, Bool.not_eq_true, reduceCtorEq, imp_false,
      Bool.not_eq_false] at h
    refine ⟨r.keyword, ?_, hwords r (Dialect.rule?_ofRules hr).1⟩
    rw [Dialect.write, Dialect.accept, hr]
    exact if_pos h

/-- Parts that are no expressions are never refused. -/
theorem Part.exists_write_of_ne_expr {p : Part} (h : ∀ e, p ≠ .expr e) :
    ∃ w, Dialect.standard.write p = p.layout .standard w := by
  obtain ⟨r, hr, hform⟩ := Part.exists_rule fun kind es => h (.custom kind es)
  obtain ⟨w, hw, -⟩ := Part.exists_write (Dialect.refusal?_of_form rfl hr hform)
  exact ⟨w, hw⟩

/-- No sign meets another in the expression as it is written. -/
def Expr.IsGuarded (mode : Mode) (e : Expr) : Prop :=
  Guarded mode (Dialect.standard.write (.expr e))

section
variable {mode : Mode}

theorem guarded_layoutsOfList {es : List Expr} :
    (∀ l ∈ layoutsOfList .standard es, Guarded mode l) ↔ ∀ e ∈ es, e.IsGuarded mode := by
  induction es with
  | nil => simp [layoutsOfList]
  | cons e es ih =>
    rw [layoutsOfList, List.forall_mem_cons, ih, List.forall_mem_cons]
    rfl

theorem guarded_layoutsOfOption {o : Option Expr} :
    (∀ l ∈ layoutsOfOption .standard o, Guarded mode l) ↔ ∀ e ∈ o.toList, e.IsGuarded mode := by
  cases o with
  | none => simp [layoutsOfOption]
  | some e =>
    rw [layoutsOfOption, Option.toList_some, List.forall_mem_singleton, List.forall_mem_singleton]
    rfl

theorem guarded_layoutsOfOperands {op : LogicalOp} {es : List Expr} :
    (∀ l ∈ layoutsOfOperands .standard op es, Guarded mode l) ↔ ∀ e ∈ es, e.IsGuarded mode := by
  induction es with
  | nil => simp [layoutsOfOperands]
  | cons e es ih =>
    rw [layoutsOfOperands, List.forall_mem_cons, ih, guarded_operand, Dialect.accept_expr,
      List.forall_mem_cons]
    rfl

theorem guarded_option {as : List Emission} {o : Option Expr} :
    Guarded mode (as ++ layoutOfOption .standard o [.space])
      ↔ Guarded mode as ∧ ∀ e ∈ o.toList, e.IsGuarded mode := by
  cases o with
  | none => simp [layoutOfOption]
  | some e =>
    rw [layoutOfOption, List.singleton_append, guarded_spaced, Option.toList_some,
      List.forall_mem_singleton]
    rfl

theorem guarded_keywordOption {as : List Emission} {o : Option Expr} {w : String}
    (hw : (word w).isSimple = true) :
    Guarded mode (as ++ layoutOfOption .standard o (keyword w))
      ↔ Guarded mode as ∧ ∀ e ∈ o.toList, e.IsGuarded mode := by
  cases o with
  | none => simp [layoutOfOption]
  | some e =>
    rw [layoutOfOption, ← List.append_assoc, guarded_keyword hw, Option.toList_some,
      List.forall_mem_singleton]
    rfl

/-- A list behind a keyword, which is left out with an empty list. -/
theorem guarded_clause {as : List Emission} {α : Type} {xs : List α} {w : String}
    (hw : (word w).isSimple = true) {ls : List (List Emission)} {P : Prop}
    (hls : (∀ l ∈ ls, Guarded mode l) ↔ P) (hempty : xs = [] → P) :
    Guarded mode (as ++ if xs.isEmpty then [] else keyword w ++ separated ", " ls)
      ↔ Guarded mode as ∧ P := by
  cases xs with
  | nil => simp [hempty rfl]
  | cons x xs =>
    rw [List.isEmpty_cons, if_neg (by decide), ← List.append_assoc, guarded_keyword hw,
      guarded_separated (by decide), hls]

theorem guarded_arms {as : List Emission} {arms : List Arm} :
    Guarded mode (as ++ layoutOfArms .standard arms)
      ↔ Guarded mode as
        ∧ ∀ e ∈ arms.flatMap (fun a => [a.condition, a.result]), e.IsGuarded mode := by
  induction arms generalizing as with
  | nil => simp [layoutOfArms]
  | cons arm arms ih =>
    obtain ⟨condition, result⟩ := arm
    have h : as ++ layoutOfArms .standard (⟨condition, result⟩ :: arms)
        = as ++ keyword "WHEN" ++ Dialect.standard.write (.expr condition) ++ keyword "THEN"
          ++ Dialect.standard.write (.expr result) ++ layoutOfArms .standard arms := by
      simp [layoutOfArms]
    rw [h, ih, guarded_keyword rfl, guarded_keyword rfl]
    simp [Expr.IsGuarded, and_assoc]

/-! ### Selecting queries -/

theorem Entity.guarded_write (e : Entity) :
    Guarded mode (Dialect.standard.write (.entity e)) := by
  obtain ⟨w, hw⟩ := Part.exists_write_of_ne_expr (p := .entity e) nofun
  rw [hw]
  exact (guarded_keyword rfl).2 ⟨guarded_singleton rfl, guarded_singleton rfl⟩

theorem JoinTarget.guarded_layout (t : JoinTarget) : Guarded mode (t.layout .standard) := by
  cases t with
  | entity e => exact e.guarded_write
  | association path label =>
    exact (guarded_keyword rfl).2 ⟨guarded_singleton rfl, guarded_singleton rfl⟩

theorem Join.guarded_write (j : Join) :
    Guarded mode (Dialect.standard.write (.join j))
      ↔ ∀ e ∈ j.condition.toList, e.IsGuarded mode := by
  obtain ⟨w, hw⟩ := Part.exists_write_of_ne_expr (p := .join j) nofun
  obtain ⟨kind, fetch, target, condition⟩ := j
  have hkind : (word kind.keyword).isSimple = true := by cases kind <;> decide
  rw [hw, Part.layout, Join.layout, guarded_keywordOption rfl]
  exact and_iff_right ((guarded_lead hkind rfl fetch).2 target.guarded_layout)

theorem guarded_joins {as : List Emission} {joins : List Join} :
    Guarded mode (as ++ layoutOfJoins .standard joins)
      ↔ Guarded mode as ∧ ∀ e ∈ joins.flatMap (fun j => j.condition.toList), e.IsGuarded mode := by
  induction joins generalizing as with
  | nil => simp [layoutOfJoins]
  | cons j joins ih =>
    have h : as ++ layoutOfJoins .standard (j :: joins)
        = as ++ .space :: Dialect.standard.write (.join j) ++ layoutOfJoins .standard joins := by
      simp [layoutOfJoins]
    rw [h, ih, guarded_spaced, Join.guarded_write, List.flatMap_cons, List.forall_mem_append,
      and_assoc]

theorem guarded_layoutsOfSources {sources : List Source} :
    (∀ l ∈ layoutsOfSources .standard sources, Guarded mode l)
      ↔ ∀ e ∈ sources.flatMap (fun s => s.joins.flatMap fun j => j.condition.toList),
        e.IsGuarded mode := by
  induction sources with
  | nil => simp [layoutsOfSources]
  | cons source sources ih =>
    obtain ⟨entity, joins⟩ := source
    rw [layoutsOfSources, List.forall_mem_cons, ih, Dialect.accept_entity, guarded_joins,
      List.flatMap_cons, List.forall_mem_append]
    exact and_congr_left' (and_iff_right entity.guarded_write)

theorem SortKey.guarded_write (k : SortKey) :
    Guarded mode (Dialect.standard.write (.sort k)) ↔ k.key.IsGuarded mode := by
  obtain ⟨w, hw⟩ := Part.exists_write_of_ne_expr (p := .sort k) nofun
  obtain ⟨key, order, nulls⟩ := k
  have horder : Guarded mode (Dialect.standard.write (.expr key) ++ [.space, .word order.keyword])
      ↔ key.IsGuarded mode := by
    rw [guarded_spaced]
    exact and_iff_left (guarded_singleton (by cases order <;> decide))
  simp only [hw, Part.layout, SortKey.layout, Dialect.accept_expr]
  cases nulls with
  | none => rw [List.append_nil, horder]
  | some n =>
    rw [guarded_spaced, horder]
    exact and_iff_left (guarded_singleton (by cases n <;> decide))

theorem guarded_layoutsOfKeys {keys : List SortKey} :
    (∀ l ∈ layoutsOfKeys .standard keys, Guarded mode l)
      ↔ ∀ e ∈ keys.map SortKey.key, e.IsGuarded mode := by
  induction keys with
  | nil => simp [layoutsOfKeys]
  | cons k keys ih =>
    rw [layoutsOfKeys, List.forall_mem_cons, ih, Dialect.accept_sort, SortKey.guarded_write,
      List.map_cons, List.forall_mem_cons]

/-- Signs meet in a selecting query only inside one of its expressions. -/
theorem Select.guarded_write (q : Select) :
    Guarded mode (Dialect.standard.write (.select q)) ↔ ∀ e ∈ q.children, e.IsGuarded mode := by
  obtain ⟨w, hw⟩ := Part.exists_write_of_ne_expr (p := .select q) nofun
  obtain ⟨resultType, distinct, items, sources, filter, groupBy, having, orderBy⟩ := q
  rw [hw, Part.layout, Select.layout,
    guarded_clause rfl guarded_layoutsOfKeys (by rintro rfl; exact List.forall_mem_nil _),
    guarded_keywordOption rfl,
    guarded_clause rfl guarded_layoutsOfList (by rintro rfl; exact List.forall_mem_nil _),
    guarded_keywordOption rfl, guarded_keyword rfl, guarded_lead rfl rfl,
    guarded_separated (by decide), guarded_separated (by decide), guarded_layoutsOfList,
    guarded_layoutsOfSources]
  simp only [Select.children, List.forall_mem_append]

/-! ### Expressions -/

/-- The expression is a negative literal that stands alone in conjunctions or disjunctions, of
which nothing else is written. -/
inductive Expr.HidesMinus : Expr → Prop
  | literal (op : LogicalOp) {e : Expr} (h : e.isNegativeLiteral = true) :
    HidesMinus (.logical op [e])
  | logical (op : LogicalOp) {e : Expr} (h : HidesMinus e) : HidesMinus (.logical op [e])

/-- The expression negates one that hides a minus sign. -/
def Expr.IsExposed (e : Expr) : Prop := ∃ v, e = .negate v ∧ v.HidesMinus

/-- A hidden literal binds as tightly as one that is not. -/
theorem Expr.HidesMinus.strength_eq {e : Expr} (h : e.HidesMinus) : e.strength = .atom := by
  induction h with
  | @literal op e h =>
    cases e with
    | literal v => rfl
    | _ => cases h
  | logical op _ ih => exact ih

theorem Expr.not_hidesMinus_of_isNegativeLiteral {e : Expr} (h : e.isNegativeLiteral = true) :
    ¬ e.HidesMinus := by
  intro hhides
  cases hhides <;> cases h

theorem Expr.hidesMinus_logical_singleton {op : LogicalOp} {e : Expr} :
    (Expr.logical op [e]).HidesMinus ↔ e.isNegativeLiteral = true ∨ e.HidesMinus := by
  constructor
  · intro h
    cases h with
    | literal _ h => exact .inl h
    | logical _ h => exact .inr h
  · rintro (h | h)
    · exact .literal op h
    · exact .logical op h

/-- Signs meet in an expression that is not a negation only inside an expression in it. -/
theorem Expr.guarded_layout {e : Expr} {w : String} (hw : (word w).isSimple = true)
    (hnegate : ∀ v, e ≠ .negate v)
    (hmembers : ∀ v es negated, e = .inList v es negated → es ≠ []) :
    Guarded mode (e.layout .standard w) ↔ ∀ c ∈ e.children, c.IsGuarded mode := by
  have hoperand : ∀ {parent side} {v : Expr},
      Guarded mode (operand parent side v.strength (Dialect.standard.write (.expr v)))
        ↔ v.IsGuarded mode := guarded_operand
  cases e with
  | literal | parameter | path | entity =>
    exact iff_of_true (guarded_singleton rfl) (List.forall_mem_nil _)
  | aliased v label =>
    rw [Expr.layout, Dialect.accept_expr, guarded_keyword rfl, hoperand, Expr.children,
      List.forall_mem_singleton]
    exact and_iff_left (guarded_singleton rfl)
  | arithmetic op l r =>
    have hop : (word op.symbol).isSimple = true := by cases op <;> decide
    rw [Expr.layout, Dialect.accept_expr, Dialect.accept_expr, guarded_keyword hop, hoperand,
      hoperand, Expr.children, List.forall_mem_cons, List.forall_mem_singleton]
  | negate v => exact absurd rfl (hnegate v)
  | choice subject arms otherwise =>
    rw [Expr.layout, guarded_ending rfl, guarded_keywordOption rfl, guarded_arms,
      ← List.singleton_append, guarded_option]
    simp only [Expr.children, List.forall_mem_append]
    exact and_congr_left' (and_congr_left' (and_iff_right (guarded_singleton rfl)))
  | subquery q =>
    rw [Expr.layout, Dialect.accept_select, guarded_parenthesized, Select.guarded_write,
      Expr.children]
  | comparison op l r =>
    have hop : (word op.symbol).isSimple = true := by cases op <;> decide
    rw [Expr.layout, Dialect.accept_expr, Dialect.accept_expr, guarded_keyword hop, hoperand,
      hoperand, Expr.children, List.forall_mem_cons, List.forall_mem_singleton]
  | logical op es =>
    cases es with
    | nil => exact iff_of_true (guarded_singleton (by cases op <;> decide)) (List.forall_mem_nil _)
    | cons e es =>
      cases es with
      | nil =>
        -- a single operand is written on its own
        rw [Expr.children, List.forall_mem_singleton]
        exact Iff.rfl
      | cons f es =>
        have hop : (word (" " ++ op.symbol ++ " ")).isSimple = true
            ∧ " " ++ op.symbol ++ " " ≠ "-" := by cases op <;> decide
        have hlist : (∀ l ∈ layoutsOfOperands .standard op (e :: f :: es), Guarded mode l)
            ↔ ∀ c ∈ e :: f :: es, c.IsGuarded mode := guarded_layoutsOfOperands
        exact (guarded_separated hop).trans hlist
  | not e =>
    rw [Expr.layout, Dialect.accept_expr, guarded_word rfl (startsUnsigned_cons rfl),
      guarded_space, hoperand, Expr.children, List.forall_mem_singleton]
  | like v p escape negated =>
    have hlike : (word (negatable negated "LIKE")).isSimple = true := by cases negated <;> decide
    simp only [Expr.layout, Dialect.accept_expr]
    rw [Expr.children, List.forall_mem_cons, List.forall_mem_singleton]
    cases escape with
    | none => rw [List.append_nil, guarded_keyword hlike, hoperand, hoperand]
    | some c =>
      rw [← List.append_assoc, guarded_keyword rfl, guarded_keyword hlike, hoperand, hoperand]
      exact and_iff_left (guarded_singleton rfl)
  | between v low high negated =>
    have hbetween : (word (negatable negated "BETWEEN")).isSimple = true := by
      cases negated <;> decide
    rw [Expr.layout, Dialect.accept_expr, Dialect.accept_expr, Dialect.accept_expr,
      guarded_keyword rfl, guarded_keyword hbetween, hoperand, hoperand, hoperand, Expr.children,
      List.forall_mem_cons, List.forall_mem_cons, List.forall_mem_singleton, and_assoc]
  | inList v es negated =>
    have hne : es.isEmpty ≠ true := fun h =>
      hmembers v es negated rfl (List.isEmpty_iff.1 h)
    have hin : (word (negatable negated "IN")).isSimple = true := by cases negated <;> decide
    rw [Expr.layout, if_neg hne, Dialect.accept_expr, guarded_keyword hin, hoperand,
      guarded_parenthesized, guarded_separated (by decide), guarded_layoutsOfList, Expr.children,
      List.forall_mem_cons]
  | inSubquery v q negated =>
    have hin : (word (negatable negated "IN")).isSimple = true := by cases negated <;> decide
    rw [Expr.layout, Dialect.accept_expr, Dialect.accept_select, guarded_keyword hin, hoperand,
      guarded_parenthesized, Select.guarded_write, Expr.children, List.forall_mem_cons]
  | isNull v negated =>
    rw [Expr.layout, Dialect.accept_expr, guarded_ending (by cases negated <;> decide), hoperand,
      Expr.children, List.forall_mem_singleton]
  | isEmpty p negated =>
    have hempty : Guarded mode ([.name p.text]
        ++ keyword (if negated then "IS NOT EMPTY" else "IS EMPTY")) :=
      (guarded_ending (by cases negated <;> decide)).2 (guarded_singleton rfl)
    exact iff_of_true hempty (List.forall_mem_nil _)
  | memberOf v p negated =>
    have hmember : (word (negatable negated "MEMBER OF")).isSimple = true := by
      cases negated <;> decide
    rw [Expr.layout, Dialect.accept_expr, guarded_keyword hmember, hoperand, Expr.children,
      List.forall_mem_singleton]
    exact and_iff_left (guarded_singleton rfl)
  | «exists» q negated =>
    have hexists : (word (negatable negated "EXISTS")).isSimple = true := by
      cases negated <;> decide
    rw [Expr.layout, Dialect.accept_select, guarded_word hexists (startsUnsigned_cons rfl),
      guarded_space, guarded_parenthesized, Select.guarded_write, Expr.children]
  | unary f v =>
    rw [Expr.layout, Dialect.accept_expr, guarded_call hw, List.forall_mem_singleton,
      Expr.children, List.forall_mem_singleton]
    exact Iff.rfl
  | current m =>
    exact iff_of_true ((guarded_call hw).2 (List.forall_mem_nil _)) (List.forall_mem_nil _)
  | variadic f es => rw [Expr.layout, guarded_call hw, guarded_layoutsOfList, Expr.children]
  | substring v start length =>
    simp only [Expr.layout, Dialect.accept_expr, guarded_call hw, List.forall_mem_cons,
      guarded_layoutsOfOption, Expr.children]
    exact Iff.rfl
  | nullIf l r =>
    rw [Expr.layout, guarded_call hw, List.forall_mem_cons, List.forall_mem_singleton,
      Expr.children, List.forall_mem_cons, List.forall_mem_singleton]
    exact Iff.rfl
  | aggregate f distinct v =>
    have hf : (word f.keyword).isSimple = true := by cases f <;> decide
    rw [Expr.layout, Dialect.accept_expr, guarded_applied hf, Expr.children,
      List.forall_mem_singleton]
    cases distinct with
    | false => exact Iff.rfl
    | true => exact (guarded_word rfl (startsUnsigned_cons rfl)).trans guarded_space
  | function name es =>
    rw [Expr.layout, guarded_call rfl, List.forall_mem_cons, guarded_layoutsOfList, Expr.children]
    exact and_iff_right (guarded_singleton rfl)
  | custom kind es => rw [Expr.layout, guarded_call hw, guarded_layoutsOfList, Expr.children]

end

/-! ### Operands that begin with a minus sign -/

/-- The standard dialect writes the expression in its layout. -/
structure Expr.IsWritable (e : Expr) : Prop where
  accepted : Dialect.standard.refusal? (.expr e) = none
  members : ∀ v es negated, e = .inList v es negated → es ≠ []

/-- An expression that does not fail is written in its layout. -/
theorem Expr.IsWritable.of_fault? {e : Expr} {b : Binder}
    (h : (Part.expr e).fault? .standard b = none) : e.IsWritable := by
  obtain ⟨hrefusal, hforeword⟩ := Option.or_eq_none_iff.1 h
  refine ⟨hrefusal, ?_⟩
  rintro v es negated rfl rfl
  cases hforeword

section
variable {mode : Mode}

/-- What is written for an expression that binds most tightly begins with a minus sign only if it
is a negative literal that is written inline, hidden or not. -/
theorem Expr.startsUnsigned_write {e : Expr} (hatom : e.strength = .atom)
    (hwrite : ∀ n ∈ e.nodes, n.IsWritable) :
    StartsUnsigned mode (Dialect.standard.write (.expr e))
      ↔ ¬ (mode = .inline ∧ (e.isNegativeLiteral = true ∨ e.HidesMinus)) := by
  induction e using Expr.of_children with
  | step e ih =>
    obtain ⟨w, hw, -, hne⟩ := Part.exists_write (hwrite e e.self_mem_nodes).accepted
    have hsign : (Emission.word w).isSigned mode = false := beq_false_of_ne hne
    rw [hw, Part.layout]
    -- beside literals and what stands alone, nothing begins with a sign
    have hother : e.isNegativeLiteral = false → (∀ op es, e ≠ .logical op es) →
        StartsUnsigned mode (e.layout .standard w) →
        (StartsUnsigned mode (e.layout .standard w)
          ↔ ¬ (mode = .inline ∧ (e.isNegativeLiteral = true ∨ e.HidesMinus))) := by
      intro hliteral hlogical hstart
      refine iff_of_true hstart ?_
      rintro ⟨-, h | h⟩
      · rw [hliteral] at h
        cases h
      · cases h <;> exact hlogical _ _ rfl
    cases e with
    | literal v =>
      have hhides : ¬ (Expr.literal v).HidesMinus := nofun
      have hstart : StartsUnsigned mode ((Expr.literal v).layout .standard w)
          ↔ (mode == .inline && v.isNegative) = false :=
        ⟨fun h => h _ rfl, fun h => startsUnsigned_cons h⟩
      rw [hstart, Expr.isNegativeLiteral_literal, or_iff_left hhides, ← Bool.not_eq_true,
        Bool.and_eq_true, beq_iff_eq]
    | logical op es =>
      cases es with
      | nil => cases hatom
      | cons e es =>
        cases es with
        | nil =>
          have hchild : e ∈ (Expr.logical op [e]).children := List.mem_singleton_self e
          have hliteral : ¬ (Expr.logical op [e]).isNegativeLiteral = true := nofun
          rw [or_iff_right hliteral, Expr.hidesMinus_logical_singleton]
          exact ih e hchild hatom fun n hn => hwrite n (Expr.mem_nodes_of_child hchild hn)
        | cons f es => cases op <;> cases hatom
    | arithmetic op l r => cases op <;> cases hatom
    | aliased | negate | not | comparison | like | between | inList | inSubquery | isNull
    | isEmpty | memberOf => cases hatom
    | «exists» q negated =>
      refine hother rfl nofun ?_
      cases negated <;> exact startsUnsigned_cons rfl
    | aggregate f distinct v =>
      refine hother rfl nofun ?_
      cases f <;> exact startsUnsigned_cons rfl
    | parameter | path | entity | choice | subquery | function =>
      exact hother rfl nofun (startsUnsigned_cons rfl)
    | unary | current | variadic | substring | nullIf | custom =>
      exact hother rfl nofun (startsUnsigned_cons hsign)

/-- A negation meets the sign of its operand if the operand hides one, and it is written inline. -/
theorem Expr.guarded_negate {v : Expr} (w : String) (hwrite : ∀ n ∈ v.nodes, n.IsWritable) :
    Guarded mode ((Expr.negate v).layout .standard w)
      ↔ ¬ (mode = .inline ∧ v.HidesMinus) ∧ v.IsGuarded mode := by
  rw [Expr.layout, guarded_minus, Dialect.accept_expr]
  split
  · next hliteral =>
    rw [guarded_parenthesized]
    exact and_congr_left' (iff_of_true (startsUnsigned_cons rfl)
      fun h => Expr.not_hidesMinus_of_isNegativeLiteral hliteral h.2)
  · next hliteral =>
    rw [guarded_operand, operand]
    refine and_congr_left' ?_
    split
    · next hparentheses =>
      -- what hides a sign binds too tightly for parentheses
      refine iff_of_true (startsUnsigned_cons rfl) ?_
      rintro ⟨-, h⟩
      rw [h.strength_eq] at hparentheses
      cases hparentheses
    · next hparentheses =>
      have hatom : v.strength = .atom := by
        cases hs : v.strength <;> rw [hs] at hparentheses <;>
          first | rfl | exact absurd rfl hparentheses
      rw [Expr.startsUnsigned_write hatom hwrite, or_iff_right hliteral]

/-- Signs meet in an expression if it is an exposed negation and literals are written inline, and
otherwise only inside an expression in it. -/
theorem Expr.guarded_write_step {e : Expr} (hwrite : ∀ n ∈ e.nodes, n.IsWritable) :
    e.IsGuarded mode
      ↔ ¬ (mode = .inline ∧ e.IsExposed) ∧ ∀ c ∈ e.children, c.IsGuarded mode := by
  obtain ⟨w, hw, hsimple, -⟩ := Part.exists_write (hwrite e e.self_mem_nodes).accepted
  rw [Expr.IsGuarded, hw, Part.layout]
  by_cases hnegate : ∃ v, e = .negate v
  · obtain ⟨v, rfl⟩ := hnegate
    have hexposed : (Expr.negate v).IsExposed ↔ v.HidesMinus := by
      constructor
      · rintro ⟨u, hu, h⟩
        rwa [Expr.negate.inj hu]
      · exact fun h => ⟨v, rfl, h⟩
    rw [hexposed, Expr.children, List.forall_mem_singleton]
    exact Expr.guarded_negate w fun n hn => hwrite n (List.mem_cons_of_mem _ hn)
  · have hnegate : ∀ v, e ≠ .negate v := fun v hv => hnegate ⟨v, hv⟩
    have hexposed : ¬ (mode = .inline ∧ e.IsExposed) := by
      rintro ⟨-, v, hv, -⟩
      exact hnegate v hv
    rw [Expr.guarded_layout hsimple hnegate (hwrite e e.self_mem_nodes).members]
    exact (and_iff_right hexposed).symm

/-- Signs meet in an expression only at the exposed negations in it. -/
theorem Expr.guarded_write {e : Expr} (hwrite : ∀ n ∈ e.nodes, n.IsWritable) :
    e.IsGuarded mode ↔ ∀ n ∈ e.nodes, ¬ (mode = .inline ∧ n.IsExposed) := by
  induction e using Expr.of_children with
  | step e ih =>
    rw [Expr.guarded_write_step hwrite, e.nodes_eq, List.forall_mem_cons, List.forall_mem_flatMap]
    exact and_congr_right' (forall₂_congr fun c hc =>
      ih c hc fun n hn => hwrite n (Expr.mem_nodes_of_child hc hn))

/-! ### Queries -/

theorem Assignment.guarded_write (a : Assignment) :
    Guarded mode (Dialect.standard.write (.assignment a)) ↔ a.value.IsGuarded mode := by
  obtain ⟨w, hw⟩ := Part.exists_write_of_ne_expr (p := .assignment a) nofun
  rw [hw, Part.layout, Assignment.layout]
  exact (guarded_keyword rfl).trans (and_iff_right (guarded_singleton rfl))

theorem Query.guarded_write_step (q : Query) :
    Guarded mode (Dialect.standard.write q.part)
      ↔ ∀ e ∈ q.children, e.IsGuarded mode := by
  cases q with
  | select q => exact q.guarded_write
  | update q =>
    obtain ⟨w, hw⟩ := Part.exists_write_of_ne_expr (p := .update q) (by rintro _ ⟨⟩)
    have hlead : Guarded mode
        (.word "UPDATE" :: .space :: Dialect.standard.write (.entity q.entity)) :=
      (guarded_word rfl (startsUnsigned_cons rfl)).2 (guarded_space.2 q.entity.guarded_write)
    rw [Query.part, hw, Part.layout, Update.layout, guarded_keywordOption rfl, guarded_keyword rfl,
      guarded_separated (by decide), Query.children, List.forall_mem_append, List.forall_mem_map,
      List.forall_mem_map]
    exact and_congr_left' ((and_iff_right hlead).trans
      (forall₂_congr fun a _ => a.guarded_write))
  | delete q =>
    obtain ⟨w, hw⟩ := Part.exists_write_of_ne_expr (p := .delete q) (by rintro _ ⟨⟩)
    have hlead : Guarded mode
        (.word "DELETE FROM" :: .space :: Dialect.standard.write (.entity q.entity)) :=
      (guarded_word rfl (startsUnsigned_cons rfl)).2 (guarded_space.2 q.entity.guarded_write)
    rw [Query.part, hw, Part.layout, Delete.layout, guarded_keywordOption rfl]
    exact and_iff_right hlead

/-- The nodes of a query in which no part fails are written in their layouts. -/
theorem Query.isWritable_of_mem_nodes {q : Query} {b : Binder}
    (h : q.parts.findSome? (Part.fault? .standard b) = none) : ∀ n ∈ q.nodes, n.IsWritable :=
  fun _ hn => .of_fault? (List.findSome?_eq_none_iff.1 h _ (Query.mem_parts_of_mem_nodes hn))

/-- Signs meet in a query that can be written only at the exposed negations in it. -/
theorem Query.guarded_write {q : Query}
    (hwrite : ∀ n ∈ q.nodes, n.IsWritable) :
    Guarded mode (Dialect.standard.write q.part)
      ↔ ∀ n ∈ q.nodes, ¬ (mode = .inline ∧ n.IsExposed) := by
  rw [Query.nodes_eq] at hwrite ⊢
  rw [Query.guarded_write_step, List.forall_mem_flatMap]
  exact forall₂_congr fun e he => Expr.guarded_write fun n hn =>
    hwrite n (List.mem_flatMap.2 ⟨e, he, hn⟩)

end
end PersistenceQuery
