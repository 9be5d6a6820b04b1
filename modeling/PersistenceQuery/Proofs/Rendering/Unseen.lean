import PersistenceQuery.Proofs.Query.Outline
import PersistenceQuery.Proofs.Rendering.Bindings
import PersistenceQuery.Proofs.Rendering.Twins

/-!
# Literals that do not show

With placeholders the text of a query says nothing about the values of its literals.

## Main definitions

* `veiled` — emissions without the values of literals.

## Main results

* `Query.veiled_write` — without these values a query is written as its outline.
* `Query.render_outline` — queries with the same outline have the same text and the same names.
-/

namespace PersistenceQuery

open Emission (keyword parenthesized separated operand call)

/-- Nothing shows of a value. -/
def Value.hidden (_ : Value) : Value := .null

/-- Emissions without the values of literals. -/
def veiled (es : List Emission) : List Emission := es.map (Emission.seen Value.hidden)

/-! ### Layouts without values -/

@[simp] theorem veiled_nil : veiled [] = [] := rfl

@[simp] theorem veiled_cons (e : Emission) (es : List Emission) :
    veiled (e :: es) = e.seen Value.hidden :: veiled es := rfl

@[simp] theorem veiled_append (as bs : List Emission) :
    veiled (as ++ bs) = veiled as ++ veiled bs := List.map_append

@[simp] theorem veiled_parenthesized (es : List Emission) :
    veiled (parenthesized es) = parenthesized (veiled es) := by
  simp [parenthesized, Emission.seen]

@[simp] theorem veiled_operand (parent child : Strength) (side : Side) (es : List Emission) :
    veiled (operand parent side child es) = operand parent side child (veiled es) := by
  unfold operand
  split
  · exact veiled_parenthesized es
  · rfl

@[simp] theorem veiled_separated (w : String) (ls : List (List Emission)) :
    veiled (separated w ls) = separated w (ls.map veiled) := by
  cases ls with
  | nil => rfl
  | cons es ls => simp [separated, veiled, List.map_flatMap, List.flatMap_map, Emission.seen]

variable {D : Dialect}

/-- What a dialect accepts depends on the form of a part only. -/
theorem veiled_accept {p p' : Part} {layout layout' : String → List Emission}
    (hp : p'.form = p.form) (h : ∀ w, veiled (layout' w) = veiled (layout w)) :
    veiled (D.accept p' layout') = veiled (D.accept p layout) := by
  have hkind : p'.kind = p.kind := by rw [Part.kind, Part.kind, hp]
  rw [Dialect.accept, Dialect.accept, hkind]
  cases D.rule? p.kind with
  | none => rfl
  | some r =>
    have hsame : r.fits p' = r.fits p := by rw [Rule.fits, Rule.fits, hp]
    simp only [Rule.accept, hsame, hkind]
    by_cases hfits : r.fits p = true
    · rw [if_pos hfits, if_pos hfits]
      exact h _
    · rw [if_neg hfits, if_neg hfits]

theorem Expr.veiled_write_of {e : Expr}
    (h : ∀ w, veiled (e.outline.layout D w) = veiled (e.layout D w)) :
    veiled (D.write (.expr e.outline)) = veiled (D.write (.expr e)) :=
  veiled_accept e.form_outline h

theorem layoutOfOperands_cons_cons (op : LogicalOp) (e f : Expr) (es : List Expr) :
    layoutOfOperands D op (e :: f :: es)
      = separated (" " ++ op.symbol ++ " ") (layoutsOfOperands D op (e :: f :: es)) := rfl

/-- Two literals are written alike. -/
theorem Expr.veiled_literal (v w : Value) :
    veiled (D.write (.expr (.literal v))) = veiled (D.write (.expr (.literal w))) :=
  veiled_accept rfl fun _ => rfl

mutual

/-- Without the values of its literals an expression is written as its outline. -/
theorem Expr.veiled_write : ∀ e : Expr,
    veiled (D.write (.expr e.outline)) = veiled (D.write (.expr e))
  | .literal _ | .parameter _ _ | .path _ | .entity _ | .isEmpty _ _ | .current _ =>
    Expr.veiled_write_of fun _ => rfl
  | .aliased v label | .isNull v _ | .memberOf v _ _ | .unary _ v => by
    have hv := v.veiled_write
    exact Expr.veiled_write_of fun _ => by simp [Expr.outline, Expr.layout, call, hv]
  | .not v => by
    have hv := v.veiled_write
    exact Expr.veiled_write_of fun _ => by simp [Expr.outline, Expr.layout, hv]
  | .negate v => by
    have hv := v.veiled_write
    refine Expr.veiled_write_of fun _ => ?_
    -- the outline keeps the sign, so both operands are put in parentheses for it, or neither
    by_cases hnegative : v.isNegativeLiteral = true
    · obtain ⟨w, rfl⟩ := Expr.exists_of_isNegativeLiteral hnegative
      have hminus : (Expr.literal (.int (-1))).isNegativeLiteral = true := rfl
      rw [Expr.outline, if_pos hnegative, Expr.layout, Expr.layout, if_pos hminus, if_pos hnegative]
      simp [Expr.veiled_literal (.int (-1)) w]
    · simp [Expr.outline, Expr.layout, hv, hnegative]
  | .arithmetic op l r | .comparison op l r | .nullIf l r => by
    have hl := l.veiled_write
    have hr := r.veiled_write
    exact Expr.veiled_write_of fun _ => by simp [Expr.outline, Expr.layout, call, hl, hr]
  | .like v p escape negated => by
    have hv := v.veiled_write
    have hp := p.veiled_write
    exact Expr.veiled_write_of fun _ => by simp [Expr.outline, Expr.layout, hv, hp]
  | .between v low high negated => by
    have hv := v.veiled_write
    have hlow := low.veiled_write
    have hhigh := high.veiled_write
    exact Expr.veiled_write_of fun _ => by simp [Expr.outline, Expr.layout, hv, hlow, hhigh]
  | .substring v start length => by
    have hv := v.veiled_write
    have hstart := start.veiled_write
    have hlength := veiled_layoutsOfOption length
    exact Expr.veiled_write_of fun _ => by
      simp [Expr.outline, Expr.layout, call, hv, hstart, hlength]
  | .choice subject arms otherwise => by
    have hsubject := veiled_layoutOfOption subject
    have harms := veiled_layoutOfArms arms
    have hotherwise := veiled_layoutOfOption otherwise
    exact Expr.veiled_write_of fun _ => by
      simp [Expr.outline, Expr.layout, hsubject, harms, hotherwise]
  | .subquery q | .exists q _ => by
    have hq := q.veiled_write
    exact Expr.veiled_write_of fun _ => by simp [Expr.outline, Expr.layout, hq]
  | .inSubquery v q _ => by
    have hv := v.veiled_write
    have hq := q.veiled_write
    exact Expr.veiled_write_of fun _ => by simp [Expr.outline, Expr.layout, hv, hq]
  | .inList v es negated => by
    have hv := v.veiled_write
    have hes := veiled_layoutsOfList es
    refine Expr.veiled_write_of fun _ => ?_
    rw [Expr.outline, Expr.layout, Expr.layout, isEmpty_outlineOfList]
    split
    · rfl
    · simp [hv, hes]
  | .logical _ [] => Expr.veiled_write_of fun _ => rfl
  | .logical _ [e] => Expr.veiled_write_of fun _ => e.veiled_write
  | .logical op (e :: f :: es) => by
    have hes := veiled_layoutsOfOperands op (e :: f :: es)
    refine Expr.veiled_write_of fun _ => ?_
    rw [Expr.outline, Expr.layout, Expr.layout, layoutOfOperands_cons_cons, veiled_separated, ← hes,
      ← veiled_separated]
    rfl
  | .aggregate f distinct v => by
    have hv := v.veiled_write
    exact Expr.veiled_write_of fun _ => by simp [Expr.outline, Expr.layout, hv]
  | .variadic _ es | .function _ es | .custom _ es => by
    have hes := veiled_layoutsOfList es
    exact Expr.veiled_write_of fun _ => by simp [Expr.outline, Expr.layout, call, hes]

theorem veiled_layoutOfOption : ∀ (o : Option Expr) (lead : List Emission),
    veiled (layoutOfOption D (outlineOfOption o) lead) = veiled (layoutOfOption D o lead)
  | none, _ => rfl
  | some e, lead => by
    have he := e.veiled_write
    simp [outlineOfOption, layoutOfOption, he]

theorem veiled_layoutsOfOption : ∀ o : Option Expr,
    (layoutsOfOption D (outlineOfOption o)).map veiled = (layoutsOfOption D o).map veiled
  | none => rfl
  | some e => by
    have he := e.veiled_write
    simp [outlineOfOption, layoutsOfOption, he]

theorem veiled_layoutsOfList : ∀ es : List Expr,
    (layoutsOfList D (outlineOfList es)).map veiled = (layoutsOfList D es).map veiled
  | [] => rfl
  | e :: es => by
    have he := e.veiled_write
    have hes := veiled_layoutsOfList es
    simp [outlineOfList, layoutsOfList, he, hes]

theorem veiled_layoutsOfOperands (op : LogicalOp) : ∀ es : List Expr,
    (layoutsOfOperands D op (outlineOfList es)).map veiled = (layoutsOfOperands D op es).map veiled
  | [] => rfl
  | e :: es => by
    have he := e.veiled_write
    have hes := veiled_layoutsOfOperands op es
    simp [outlineOfList, layoutsOfOperands, he, hes]

theorem veiled_layoutOfArms : ∀ arms : List Arm,
    veiled (layoutOfArms D (outlineOfArms arms)) = veiled (layoutOfArms D arms)
  | [] => rfl
  | ⟨condition, result⟩ :: arms => by
    have hcondition := condition.veiled_write
    have hresult := result.veiled_write
    have harms := veiled_layoutOfArms arms
    simp [outlineOfArms, Arm.outline, layoutOfArms, hcondition, hresult, harms]

/-- A selecting query is written clause by clause. -/
theorem Select.veiled_write : ∀ q : Select,
    veiled (D.write (.select q.outline)) = veiled (D.write (.select q))
  | ⟨_, distinct, items, sources, filter, groupBy, having, orderBy⟩ => by
    have hitems := veiled_layoutsOfList items
    have hsources := veiled_layoutsOfSources sources
    have hfilter := veiled_layoutOfOption filter
    have hgroup := veiled_layoutsOfList groupBy
    have hhaving := veiled_layoutOfOption having
    have horder := veiled_layoutsOfKeys orderBy
    exact veiled_accept rfl fun _ => by
      simp [Part.layout, Select.outline, Select.layout, apply_ite veiled, hitems, hsources,
        hfilter, hgroup, hhaving, horder]

theorem veiled_layoutsOfSources : ∀ sources : List Source,
    (layoutsOfSources D (outlineOfSources sources)).map veiled
      = (layoutsOfSources D sources).map veiled
  | [] => rfl
  | ⟨entity, joins⟩ :: sources => by
    have hjoins := veiled_layoutOfJoins joins
    have hsources := veiled_layoutsOfSources sources
    simp [outlineOfSources, Source.outline, layoutsOfSources, hjoins, hsources]

theorem veiled_layoutOfJoins : ∀ joins : List Join,
    veiled (layoutOfJoins D (outlineOfJoins joins)) = veiled (layoutOfJoins D joins)
  | [] => rfl
  | ⟨kind, fetch, target, condition⟩ :: joins => by
    have hcondition := veiled_layoutOfOption condition
    have hjoins := veiled_layoutOfJoins joins
    have hjoin : veiled (D.write (.join (Join.outline ⟨kind, fetch, target, condition⟩)))
        = veiled (D.write (.join ⟨kind, fetch, target, condition⟩)) :=
      veiled_accept rfl fun _ => by simp [Part.layout, Join.outline, Join.layout, hcondition]
    simp [outlineOfJoins, layoutOfJoins, hjoin, hjoins]

theorem veiled_layoutsOfKeys : ∀ keys : List SortKey,
    (layoutsOfKeys D (outlineOfKeys keys)).map veiled = (layoutsOfKeys D keys).map veiled
  | [] => rfl
  | ⟨key, order, nulls⟩ :: keys => by
    have hkey := key.veiled_write
    have hkeys := veiled_layoutsOfKeys keys
    have hsort : veiled (D.write (.sort (SortKey.outline ⟨key, order, nulls⟩)))
        = veiled (D.write (.sort ⟨key, order, nulls⟩)) :=
      veiled_accept rfl fun _ => by simp [Part.layout, SortKey.outline, SortKey.layout, hkey]
    simp [outlineOfKeys, layoutsOfKeys, hsort, hkeys]

end

theorem Assignment.veiled_write (a : Assignment) :
    veiled (D.write (.assignment a.outline)) = veiled (D.write (.assignment a)) := by
  have hvalue := a.value.veiled_write (D := D)
  exact veiled_accept rfl fun _ => by
    simp [Part.layout, Assignment.outline, Assignment.layout, hvalue]

theorem Update.veiled_write (q : Update) :
    veiled (D.write (.update q.outline)) = veiled (D.write (.update q)) := by
  have hfilter := veiled_layoutOfOption (D := D) q.filter
  have hassignments : (q.assignments.map fun a => veiled (D.write (.assignment a.outline)))
      = q.assignments.map fun a => veiled (D.write (.assignment a)) :=
    List.map_congr_left fun a _ => a.veiled_write
  exact veiled_accept rfl fun _ => by
    simp [Part.layout, Update.outline, Update.layout, Function.comp_def, hfilter, hassignments]

theorem Delete.veiled_write (q : Delete) :
    veiled (D.write (.delete q.outline)) = veiled (D.write (.delete q)) := by
  have hfilter := veiled_layoutOfOption (D := D) q.filter
  exact veiled_accept rfl fun _ => by
    simp [Part.layout, Delete.outline, Delete.layout, hfilter]

/-- Without the values of its literals a query is written as its outline. -/
theorem Query.veiled_write (q : Query) :
    veiled (D.write q.outline.part) = veiled (D.write q.part) := by
  cases q with
  | select q => exact q.veiled_write
  | update q => exact q.veiled_write
  | delete q => exact q.veiled_write

/-! ### Rendered queries -/

/-- With placeholders a query and its outline give the same result, but for values. -/
theorem Query.seen_render_outline (D : Dialect) (q : Query) (supplied : Option Bindings) :
    (q.outline.render D supplied .placeholder).map (Rendered.seen Value.hidden)
      = (q.render D supplied .placeholder).map (Rendered.seen Value.hidden) := by
  have hparameters := q.parameters_outline
  have hbinder : q.outline.binder supplied .placeholder = q.binder supplied .placeholder := by
    rw [Query.binder, Query.binder, hparameters]
  have hbindings : q.outline.checkBindings supplied = q.checkBindings supplied := by
    rw [Query.checkBindings, Query.checkBindings, hparameters]
  have htwins : Binder.Twins Value.hidden Set.univ (q.binder supplied .placeholder)
      (q.binder supplied .placeholder) := by
    rw [Query.binder, Binder.foldl_reserve]
    refine ⟨rfl, rfl, Nat.one_pos, fun _ _ => Iff.rfl, fun _ _ => rfl, rfl, fun hinline => ?_⟩
    cases hinline
  rw [Query.render, Query.render, q.checkShape_outline, hbindings, hbinder]
  cases q.checkShape with
  | error cause => rfl
  | ok u =>
    cases q.checkBindings supplied with
    | error fault => rfl
    | ok u => exact htwins.rendered q.veiled_write fun _ _ _ => Set.mem_univ _

/-- With placeholders the values of literals do not show.  Queries that differ in these values only,
and not in which literals are negative under a minus sign, fail with the same fault or have the same
text and bind the same names in the same order. -/
theorem Query.render_outline {q q' : Query} (h : q.outline = q'.outline)
    (supplied : Option Bindings) :
    (q.render .standard supplied .placeholder).map (fun r => (r.text, r.bindings.names))
      = (q'.render .standard supplied .placeholder).map (fun r => (r.text, r.bindings.names)) := by
  have hseen : (q.render .standard supplied .placeholder).map (Rendered.seen Value.hidden)
      = (q'.render .standard supplied .placeholder).map (Rendered.seen Value.hidden) := by
    rw [← q.seen_render_outline, h, q'.seen_render_outline]
  -- names show with and without the values
  have hnames : ∀ x : Except Fault Rendered, x.map (fun r => (r.text, r.bindings.names))
      = (x.map (Rendered.seen Value.hidden)).map (Prod.map id (List.map Prod.fst)) := by
    rintro (fault | r)
    · rfl
    · simp [Except.map, Rendered.seen, Bindings.names]
  rw [hnames, hnames, hseen]

/-- Books that are ranked below a number, and came out at a time. -/
def booksRanked (rank : Value) (published : Value) : Query := .select {
  resultType := "Book"
  distinct := false
  items := [.entity ⟨"Book", "b"⟩]
  sources := [⟨⟨"Book", "b"⟩, []⟩]
  filter := some (.logical .and [
    .comparison .lt (.negate (.path ⟨["b", "rank"]⟩)) (.negate (.literal rank)),
    .comparison .eq (.path ⟨["b", "published"]⟩) (.literal published),
    .comparison .eq (.path ⟨["b", "genre"]⟩) (.parameter "genre" none)])
  groupBy := []
  having := none
  orderBy := [] }

theorem render_booksRanked :
    let q := booksRanked (.int (-3)) (.string "1818-01-01' OR 1 = 1")
    let q' := booksRanked (.int (-40)) .null
    let supplied := some (Bindings.ofList [("genre", .string "novel")])
    q.outline = q'.outline
      ∧ (q.render .standard supplied .placeholder).map (fun r => (r.text, r.bindings.names))
        = (q'.render .standard supplied .placeholder).map fun r => (r.text, r.bindings.names) := by
  intro q q' supplied
  have h : q.outline = q'.outline := rfl
  exact ⟨h, Query.render_outline h supplied⟩

end PersistenceQuery
