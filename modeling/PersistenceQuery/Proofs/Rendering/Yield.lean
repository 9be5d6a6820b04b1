import Mathlib.Algebra.BigOperators.Group.List.Basic
import PersistenceQuery.Proofs.Query.Tour
import PersistenceQuery.Rendering.Writing

/-!
# What a layout yields

Most of what is written is words, names and spaces.  Without them a layout is a list of quoted
texts, literals and named parameters that may end in a fault, and such lists come from the parts
alone: each part that a tour enters is refused by the dialect or adds what is its own.

## Main definitions

* `Yield` — quoted texts, literals and parameters, and the fault that ends them.
* `yieldOf` — what emissions yield.
* `Dialect.refusal?` — why a dialect does not write a part.
* `Visit.yield`, `yieldOfTour` — what a visit yields, and the visits of a tour.

## Main results

* `Query.yieldOf_write` — a layout yields what the tour of the query yields.
-/

namespace PersistenceQuery

open Emission (keyword parenthesized separated operand call)

/-- Emissions without words, names, spaces and parentheses, up to a fault. -/
structure Yield where
  /-- Quoted texts, literals and named parameters. -/
  tokens : List Emission
  /-- The fault behind which nothing is written. -/
  fault : Option Fault

namespace Yield

/-- A fault and nothing else. -/
def stop (f : Fault) : Yield := ⟨[], some f⟩

/-- One token. -/
def single (e : Emission) : Yield := ⟨[e], none⟩

/-- One behind the other, unless the first ends in a fault. -/
instance : Mul Yield := ⟨fun x y =>
  match x.fault with
  | some _ => x
  | none => ⟨x.tokens ++ y.tokens, y.fault⟩⟩

instance : One Yield := ⟨⟨[], none⟩⟩

theorem mul_of_some {x : Yield} {f : Fault} (h : x.fault = some f) (y : Yield) : x * y = x := by
  show (match x.fault with | some _ => x | none => _) = x
  rw [h]

theorem mul_of_none {x : Yield} (h : x.fault = none) (y : Yield) :
    x * y = ⟨x.tokens ++ y.tokens, y.fault⟩ := by
  show (match x.fault with | some _ => x | none => _) = _
  rw [h]

/-- Behind a fault nothing follows. -/
@[simp] theorem stop_mul (f : Fault) (y : Yield) : stop f * y = stop f := mul_of_some rfl y

instance : Monoid Yield where
  one_mul y := mul_of_none rfl y
  mul_one x := by
    cases h : x.fault with
    | some f => exact mul_of_some h 1
    | none =>
      rw [mul_of_none h]
      show Yield.mk (x.tokens ++ []) none = x
      rw [List.append_nil, ← h]
  mul_assoc x y z := by
    cases hx : x.fault with
    | some f => rw [mul_of_some hx, mul_of_some hx, mul_of_some hx]
    | none =>
      cases hy : y.fault with
      | some f =>
        have hxy : (x * y).fault = some f := by rw [mul_of_none hx]; exact hy
        rw [mul_of_some hxy, mul_of_some hy]
      | none =>
        have hxy : (x * y).fault = none := by rw [mul_of_none hx]; exact hy
        rw [mul_of_none hxy, mul_of_none hy, mul_of_none hx, mul_of_none hx, List.append_assoc]

@[simp] theorem tokens_one : (1 : Yield).tokens = [] := rfl

/-- A product without a fault has the tokens of its factors, and none of them has one. -/
theorem tokens_prod {ys : List Yield} (h : ys.prod.fault = none) :
    ys.prod.tokens = ys.flatMap Yield.tokens ∧ ∀ y ∈ ys, y.fault = none := by
  induction ys with
  | nil => exact ⟨rfl, fun y hy => absurd hy List.not_mem_nil⟩
  | cons y ys ih =>
    rw [List.prod_cons] at h ⊢
    cases hy : y.fault with
    | some f =>
      rw [mul_of_some hy, hy] at h
      cases h
    | none =>
      rw [mul_of_none hy] at h ⊢
      obtain ⟨htokens, hfaults⟩ := ih h
      exact ⟨by rw [List.flatMap_cons, htokens], List.forall_mem_cons.2 ⟨hy, hfaults⟩⟩

end Yield

/-! ### Emissions -/

/-- What one emission yields. -/
def Emission.yield : Emission → Yield
  | .quoted s => .single (.quoted s)
  | .value v => .single (.value v)
  | .parameter s v => .single (.parameter s v)
  | .stop f => .stop f
  | .word _ | .name _ | .space | .opening | .closing => 1

/-- What emissions yield one after the other. -/
def yieldOf (es : List Emission) : Yield := (es.map Emission.yield).prod

@[simp] theorem yieldOf_nil : yieldOf [] = 1 := rfl

@[simp] theorem yieldOf_cons (e : Emission) (es : List Emission) :
    yieldOf (e :: es) = e.yield * yieldOf es := rfl

@[simp] theorem yieldOf_append (as bs : List Emission) :
    yieldOf (as ++ bs) = yieldOf as * yieldOf bs := by
  rw [yieldOf, List.map_append, List.prod_append, yieldOf, yieldOf]

@[simp] theorem Emission.yield_word (w : String) : (word w).yield = 1 := rfl

@[simp] theorem Emission.yield_name (s : String) : (name s).yield = 1 := rfl

@[simp] theorem Emission.yield_space : space.yield = 1 := rfl

@[simp] theorem Emission.yield_opening : opening.yield = 1 := rfl

@[simp] theorem Emission.yield_closing : closing.yield = 1 := rfl

@[simp] theorem yieldOf_keyword (w : String) : yieldOf (keyword w) = 1 := by simp [keyword]

@[simp] theorem yieldOf_parenthesized (es : List Emission) :
    yieldOf (parenthesized es) = yieldOf es := by simp [parenthesized]

@[simp] theorem yieldOf_operand (parent child : Strength) (side : Side) (es : List Emission) :
    yieldOf (operand parent side child es) = yieldOf es := by
  unfold operand
  split
  · exact yieldOf_parenthesized es
  · rfl

@[simp] theorem yieldOf_separated (w : String) (ls : List (List Emission)) :
    yieldOf (separated w ls) = (ls.map yieldOf).prod := by
  have hrest : ∀ ls : List (List Emission),
      yieldOf (ls.flatMap (.word w :: ·)) = (ls.map yieldOf).prod := by
    intro ls
    induction ls with
    | nil => rfl
    | cons l ls ih => simp [ih]
  cases ls with
  | nil => rfl
  | cons l ls => rw [Emission.separated_cons, yieldOf_append, hrest, List.map_cons, List.prod_cons]

@[simp] theorem yieldOf_call (w : String) (ls : List (List Emission)) :
    yieldOf (call w ls) = (ls.map yieldOf).prod := by simp [call]

/-! ### Visits -/

/-- Why the dialect does not write a part: it has no rule for its kind, or one that does not fit. -/
def Dialect.refusal? (D : Dialect) (p : Part) : Option Fault :=
  match D.rule? p.kind with
  | none => some (.unsupportedKind p.kind)
  | some r => if r.fits p then none else some (.mismatch r.kind p.kind)

/-- What a part yields in front of the parts inside it. -/
def Part.foreword : Part → Yield
  | .expr (.literal v) => .single (.value v)
  | .expr (.parameter s v) => .single (.parameter s v)
  | .expr (.function name _) => .single (.quoted name)
  | .expr (.inList _ es _) => if es.isEmpty then .stop (.invalidShape .emptyMembers) else 1
  | _ => 1

/-- What a part yields behind the parts inside it. -/
def Part.afterword : Part → Yield
  | .expr (.like _ _ (some c) _) => .single (.quoted (String.singleton c))
  | _ => 1

/-- What a visit yields. -/
def Visit.yield (D : Dialect) : Visit → Yield
  | enter p => (match D.refusal? p with | some f => .stop f | none => 1) * p.foreword
  | leave p => p.afterword

/-- What the visits of a tour yield one after the other. -/
def yieldOfTour (D : Dialect) (vs : List Visit) : Yield := (vs.map (Visit.yield D)).prod

section
variable {D : Dialect}

@[simp] theorem yieldOfTour_nil : yieldOfTour D [] = 1 := rfl

@[simp] theorem yieldOfTour_append (vs us : List Visit) :
    yieldOfTour D (vs ++ us) = yieldOfTour D vs * yieldOfTour D us := by
  rw [yieldOfTour, List.map_append, List.prod_append, yieldOfTour, yieldOfTour]

theorem yieldOfTour_around (p : Part) (inner : List Visit) :
    yieldOfTour D (around p inner)
      = Visit.yield D (.enter p) * yieldOfTour D inner * p.afterword := by
  rw [around, ← List.singleton_append, yieldOfTour_append, yieldOfTour_append, ← mul_assoc]
  simp [yieldOfTour, Visit.yield]

/-- A part that is written by a rule yields what its tour yields. -/
theorem Dialect.yieldOf_accept {p : Part} {layout : String → List Emission} {inner : List Visit}
    (h : ∀ w, yieldOf (layout w) = p.foreword * yieldOfTour D inner * p.afterword) :
    yieldOf (D.accept p layout) = yieldOfTour D (around p inner) := by
  rw [yieldOfTour_around, Visit.yield, Dialect.accept, Dialect.refusal?]
  cases D.rule? p.kind with
  | none => simp [Emission.yield]
  | some r =>
    by_cases hfits : r.fits p = true
    · simp only [Rule.accept, hfits, if_true, one_mul]
      exact h _
    · simp [Rule.accept, hfits, Emission.yield]

/-- An entity that is declared yields nothing of its own. -/
theorem Entity.yieldOf_write (e : Entity) :
    yieldOf (D.write (.entity e)) = yieldOfTour D (stopover (.entity e)) :=
  Dialect.yieldOf_accept fun _ => by
    simp [Part.layout, Entity.layout, Part.foreword, Part.afterword]

theorem JoinTarget.yieldOf_layout (t : JoinTarget) :
    yieldOf (t.layout D) = yieldOfTour D t.tour := by
  cases t with
  | entity e => exact e.yieldOf_write
  | association path label => simp [JoinTarget.layout, JoinTarget.tour]

mutual

/-- An expression yields what its tour yields. -/
theorem Expr.yieldOf_write : ∀ e : Expr, yieldOf (D.write (.expr e)) = yieldOfTour D e.tour
  | .literal v => Dialect.yieldOf_accept fun _ => by
    simp [Part.layout, Expr.layout, Emission.yield, Part.foreword, Part.afterword]
  | .parameter s v => Dialect.yieldOf_accept fun _ => by
    simp [Part.layout, Expr.layout, Emission.yield, Part.foreword, Part.afterword]
  | .path _ | .entity _ | .isEmpty _ _ | .current _ => Dialect.yieldOf_accept fun _ => by
    simp [Part.layout, Expr.layout, Part.foreword, Part.afterword]
  | .aliased v _ | .isNull v _ | .memberOf v _ _ | .not v | .unary _ v =>
    Dialect.yieldOf_accept fun _ => by
      simp [Part.layout, Expr.layout, Part.foreword, Part.afterword, v.yieldOf_write]
  | .arithmetic _ l r | .comparison _ l r | .nullIf l r => Dialect.yieldOf_accept fun _ => by
    simp [Part.layout, Expr.layout, Part.foreword, Part.afterword, l.yieldOf_write,
      r.yieldOf_write]
  | .negate v => Dialect.yieldOf_accept fun _ => by
    -- with parentheses of its own or as an operand
    by_cases h : v.isNegativeLiteral = true <;>
      simp [Part.layout, Expr.layout, Part.foreword, Part.afterword, h, v.yieldOf_write]
  | .choice operand arms otherwise => Dialect.yieldOf_accept fun _ => by
    simp [Part.layout, Expr.layout, Part.foreword, Part.afterword, yieldOf_layoutOfOption,
      yieldOf_layoutOfArms arms]
  | .subquery q | .exists q _ => Dialect.yieldOf_accept fun _ => by
    simp [Part.layout, Expr.layout, Part.foreword, Part.afterword, q.yieldOf_write]
  | .logical op [] => Dialect.yieldOf_accept fun _ => by
    simp [Part.layout, Expr.layout, layoutOfOperands, Part.foreword, Part.afterword, tourOfList]
  | .logical op [e] => Dialect.yieldOf_accept fun _ => by
    simp [Part.layout, Expr.layout, layoutOfOperands, Part.foreword, Part.afterword, tourOfList,
      e.yieldOf_write]
  | .logical op (e :: f :: es) => Dialect.yieldOf_accept fun _ => by
    have hes := yieldOf_layoutsOfOperands op (e :: f :: es)
    rw [layoutsOfOperands] at hes
    rw [Part.layout, Expr.layout, layoutOfOperands, if_neg (by simp), yieldOf_separated, hes]
    simp [Part.foreword, Part.afterword]
  | .like v p escape _ => Dialect.yieldOf_accept fun _ => by
    -- the escape character is quoted behind the pattern
    cases escape <;>
      simp [Part.layout, Expr.layout, Part.foreword, Part.afterword, Emission.yield,
        v.yieldOf_write, p.yieldOf_write, mul_assoc]
  | .between v low high _ => Dialect.yieldOf_accept fun _ => by
    simp [Part.layout, Expr.layout, Part.foreword, Part.afterword, v.yieldOf_write,
      low.yieldOf_write, high.yieldOf_write]
  | .inList v [] _ => Dialect.yieldOf_accept fun _ => by
    simp [Part.layout, Expr.layout, Part.foreword, Emission.yield]
  | .inList v (e :: es) _ => Dialect.yieldOf_accept fun _ => by
    simp [Part.layout, Expr.layout, Part.foreword, Part.afterword, v.yieldOf_write,
      yieldOf_layoutsOfList (e :: es)]
  | .inSubquery v q _ => Dialect.yieldOf_accept fun _ => by
    simp [Part.layout, Expr.layout, Part.foreword, Part.afterword, v.yieldOf_write,
      q.yieldOf_write]
  | .variadic _ es | .custom _ es => Dialect.yieldOf_accept fun _ => by
    simp [Part.layout, Expr.layout, Part.foreword, Part.afterword, yieldOf_layoutsOfList es]
  | .substring v start length => Dialect.yieldOf_accept fun _ => by
    simp [Part.layout, Expr.layout, Part.foreword, Part.afterword, v.yieldOf_write,
      start.yieldOf_write, yieldOf_layoutsOfOption length]
  | .aggregate _ distinct v => Dialect.yieldOf_accept fun _ => by
    cases distinct <;>
      simp [Part.layout, Expr.layout, Part.foreword, Part.afterword, v.yieldOf_write]
  | .function name es => Dialect.yieldOf_accept fun _ => by
    simp [Part.layout, Expr.layout, Part.foreword, Part.afterword, Emission.yield,
      yieldOf_layoutsOfList es]

/-- What leads to an optional expression yields nothing. -/
theorem yieldOf_layoutOfOption : ∀ (o : Option Expr) {lead : List Emission}, yieldOf lead = 1 →
    yieldOf (layoutOfOption D o lead) = yieldOfTour D (tourOfOption o)
  | none, _, _ => rfl
  | some e, lead, h => by
    rw [layoutOfOption, yieldOf_append, h, one_mul]
    exact e.yieldOf_write

theorem yieldOf_layoutsOfOption : ∀ o : Option Expr,
    ((layoutsOfOption D o).map yieldOf).prod = yieldOfTour D (tourOfOption o)
  | none => rfl
  | some e => by simp [layoutsOfOption, tourOfOption, e.yieldOf_write]

theorem yieldOf_layoutsOfList : ∀ es : List Expr,
    ((layoutsOfList D es).map yieldOf).prod = yieldOfTour D (tourOfList es)
  | [] => rfl
  | e :: es => by simp [layoutsOfList, tourOfList, e.yieldOf_write, yieldOf_layoutsOfList es]

theorem yieldOf_layoutsOfOperands (op : LogicalOp) : ∀ es : List Expr,
    ((layoutsOfOperands D op es).map yieldOf).prod = yieldOfTour D (tourOfList es)
  | [] => rfl
  | e :: es => by
    simp [layoutsOfOperands, tourOfList, e.yieldOf_write, yieldOf_layoutsOfOperands op es]

theorem yieldOf_layoutOfArms : ∀ arms : List Arm,
    yieldOf (layoutOfArms D arms) = yieldOfTour D (tourOfArms arms)
  | [] => rfl
  | ⟨condition, result⟩ :: arms => by
    simp [layoutOfArms, tourOfArms, condition.yieldOf_write, result.yieldOf_write,
      yieldOf_layoutOfArms arms]

theorem Select.yieldOf_write : ∀ q : Select,
    yieldOf (D.write (.select q)) = yieldOfTour D q.tour
  | ⟨_, distinct, items, sources, filter, groupBy, having, orderBy⟩ =>
    Dialect.yieldOf_accept fun _ => by
      have hgroup : yieldOf (if groupBy.isEmpty then []
          else keyword "GROUP BY" ++ separated ", " (layoutsOfList D groupBy))
          = yieldOfTour D (tourOfList groupBy) := by
        cases groupBy with
        | nil => rfl
        | cons e es => simp [yieldOf_layoutsOfList (e :: es)]
      have horder : yieldOf (if orderBy.isEmpty then []
          else keyword "ORDER BY" ++ separated ", " (layoutsOfKeys D orderBy))
          = yieldOfTour D (tourOfKeys orderBy) := by
        cases orderBy with
        | nil => rfl
        | cons k ks => simp [yieldOf_layoutsOfKeys (k :: ks)]
      have hdistinct : yieldOf (if distinct then [.word "DISTINCT", .space] else []) = 1 := by
        cases distinct <;> rfl
      simp only [Part.layout, Select.layout, Part.foreword, Part.afterword, List.cons_append,
        yieldOf_cons, yieldOf_append, Emission.yield_word, Emission.yield_space, yieldOf_keyword,
        yieldOf_separated, yieldOfTour_append, hdistinct, hgroup, horder,
        yieldOf_layoutsOfList items, yieldOf_layoutsOfSources sources,
        yieldOf_layoutOfOption filter (yieldOf_keyword _),
        yieldOf_layoutOfOption having (yieldOf_keyword _), one_mul, mul_one]

theorem yieldOf_layoutsOfSources : ∀ sources : List Source,
    ((layoutsOfSources D sources).map yieldOf).prod = yieldOfTour D (tourOfSources sources)
  | [] => rfl
  | ⟨entity, joins⟩ :: sources => by
    simp [layoutsOfSources, tourOfSources, entity.yieldOf_write, yieldOf_layoutOfJoins joins,
      yieldOf_layoutsOfSources sources, mul_assoc]

theorem yieldOf_layoutOfJoins : ∀ joins : List Join,
    yieldOf (layoutOfJoins D joins) = yieldOfTour D (tourOfJoins joins)
  | [] => rfl
  | ⟨kind, fetch, target, condition⟩ :: joins => by
    have hfetch : yieldOf (if fetch then [.word "FETCH", .space] else []) = 1 := by
      cases fetch <;> rfl
    have hjoin : yieldOf (D.write (.join ⟨kind, fetch, target, condition⟩))
        = yieldOfTour D (around (.join ⟨kind, fetch, target, condition⟩)
          (target.tour ++ tourOfOption condition)) :=
      Dialect.yieldOf_accept fun _ => by
        simp [Part.layout, Join.layout, Part.foreword, Part.afterword, hfetch,
          target.yieldOf_layout, yieldOf_layoutOfOption]
    simp [layoutOfJoins, tourOfJoins, hjoin, yieldOf_layoutOfJoins joins]

theorem yieldOf_layoutsOfKeys : ∀ keys : List SortKey,
    ((layoutsOfKeys D keys).map yieldOf).prod = yieldOfTour D (tourOfKeys keys)
  | [] => rfl
  | ⟨key, order, nulls⟩ :: keys => by
    have hkey : yieldOf (D.write (.sort ⟨key, order, nulls⟩))
        = yieldOfTour D (around (.sort ⟨key, order, nulls⟩) key.tour) :=
      Dialect.yieldOf_accept fun _ => by
        cases nulls <;>
          simp [Part.layout, SortKey.layout, Part.foreword, Part.afterword, key.yieldOf_write]
    simp [layoutsOfKeys, tourOfKeys, hkey, yieldOf_layoutsOfKeys keys]

end

theorem yieldOf_layoutsOfAssignments (as : List Assignment) :
    (as.map (yieldOf ∘ fun a => D.write (.assignment a))).prod
      = yieldOfTour D (as.flatMap Assignment.tour) := by
  induction as with
  | nil => rfl
  | cons a as ih =>
    have ha : yieldOf (D.write (.assignment a)) = yieldOfTour D a.tour :=
      Dialect.yieldOf_accept fun _ => by
        simp [Part.layout, Assignment.layout, Part.foreword, Part.afterword,
          a.value.yieldOf_write]
    rw [List.map_cons, List.prod_cons, Function.comp_apply, ha, ih, List.flatMap_cons,
      yieldOfTour_append]

theorem Update.yieldOf_write (q : Update) :
    yieldOf (D.write (.update q)) = yieldOfTour D q.tour :=
  Dialect.yieldOf_accept fun _ => by
    simp [Part.layout, Update.layout, Part.foreword, Part.afterword, q.entity.yieldOf_write,
      yieldOf_layoutsOfAssignments, yieldOf_layoutOfOption]

theorem Delete.yieldOf_write (q : Delete) :
    yieldOf (D.write (.delete q)) = yieldOfTour D q.tour :=
  Dialect.yieldOf_accept fun _ => by
    simp [Part.layout, Delete.layout, Part.foreword, Part.afterword, q.entity.yieldOf_write,
      yieldOf_layoutOfOption]

/-- A query yields what its tour yields. -/
theorem Query.yieldOf_write (q : Query) : yieldOf (D.write q.part) = yieldOfTour D q.tour := by
  cases q with
  | select q => exact q.yieldOf_write
  | update q => exact q.yieldOf_write
  | delete q => exact q.yieldOf_write

end

end PersistenceQuery
