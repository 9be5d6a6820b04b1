import Mathlib.Data.List.Basic
import PersistenceQuery.Proofs.Query.Checked
import PersistenceQuery.Proofs.Query.Occurrence

/-!
# Places in a query

A place is a query with one expression left out.  It is given by the clause that is left open, or
that leads there, and by the expressions around the gap from the inside out, each with one operand
left out.  Putting expressions into a place gives queries that differ in that one occurrence, and
every occurrence of an expression is what is put into some place.

## Main definitions

* `Clause`, `Frame`, `Root` — a selecting query, an expression and a query of any kind, with an
  expression directly inside it left out.
* `Place`, `Place.fill` — a query with an expression left out at any depth, and the query that an
  expression put there completes.

## Main results

* `Expr.mem_children_iff`, `Query.occurs_iff` — what stands in an expression is put into a frame,
  and what occurs in a query is put into a place.
* `Place.embeds_nodes` — the nodes of a query around a place, as far as they do not depend on
  what is put there.
-/

namespace PersistenceQuery

/-! ### One step -/

/-- A selecting query with an expression of one of its clauses left out. -/
inductive Clause
  | item (query : Select) (before after : List Expr)
  | join (query : Select) (before after : List Source) (entity : Entity)
    (joinsBefore joinsAfter : List Join) (kind : JoinKind) (fetch : Bool) (target : JoinTarget)
  | filter (query : Select)
  | groupBy (query : Select) (before after : List Expr)
  | having (query : Select)
  | orderBy (query : Select) (before after : List SortKey) (order : SortOrder)
    (nulls : Option NullOrder)

/-- The selecting query with the expression in its clause. -/
def Clause.fill : Clause → Expr → Select
  | item q before after, e => { q with items := before ++ e :: after }
  | join q before after entity joinsBefore joinsAfter kind fetch target, e =>
    { q with
      sources :=
        before ++ ⟨entity, joinsBefore ++ ⟨kind, fetch, target, some e⟩ :: joinsAfter⟩ :: after }
  | filter q, e => { q with filter := some e }
  | groupBy q before after, e => { q with groupBy := before ++ e :: after }
  | having q, e => { q with having := some e }
  | orderBy q before after order nulls, e =>
    { q with orderBy := before ++ ⟨e, order, nulls⟩ :: after }

/-- An expression with one of the expressions directly inside it left out. -/
inductive Frame
  | aliased (label : String)
  | arithmeticLeft (op : ArithmeticOp) (right : Expr)
  | arithmeticRight (op : ArithmeticOp) (left : Expr)
  | negate
  | choiceOperand (arms : List Arm) (otherwise : Option Expr)
  | choiceCondition (operand : Option Expr) (before : List Arm) (result : Expr)
    (after : List Arm) (otherwise : Option Expr)
  | choiceResult (operand : Option Expr) (before : List Arm) (condition : Expr)
    (after : List Arm) (otherwise : Option Expr)
  | choiceOtherwise (operand : Option Expr) (arms : List Arm)
  | subquery (clause : Clause)
  | comparisonLeft (op : ComparisonOp) (right : Expr)
  | comparisonRight (op : ComparisonOp) (left : Expr)
  | logical (op : LogicalOp) (before after : List Expr)
  | not
  | likeValue (pattern : Expr) (escape : Option Char) (negated : Bool)
  | likePattern (value : Expr) (escape : Option Char) (negated : Bool)
  | betweenValue (low high : Expr) (negated : Bool)
  | betweenLow (value high : Expr) (negated : Bool)
  | betweenHigh (value low : Expr) (negated : Bool)
  | inListValue (members : List Expr) (negated : Bool)
  | inListMember (value : Expr) (before after : List Expr) (negated : Bool)
  | inSubqueryValue (query : Select) (negated : Bool)
  | inSubqueryClause (value : Expr) (clause : Clause) (negated : Bool)
  | isNull (negated : Bool)
  | memberOf (collection : Path) (negated : Bool)
  | exists (clause : Clause) (negated : Bool)
  | unary (function : UnaryFunction)
  | variadic (function : ListFunction) (before after : List Expr)
  | substringValue (start : Expr) (length : Option Expr)
  | substringStart (value : Expr) (length : Option Expr)
  | substringLength (value start : Expr)
  | nullIfLeft (right : Expr)
  | nullIfRight (left : Expr)
  | aggregate (function : AggregateFunction) (distinct : Bool)
  | function (name : String) (before after : List Expr)
  | custom (kind : String) (before after : List Expr)

/-- The expression with an operand in the place of the one that was left out. -/
def Frame.fill : Frame → Expr → Expr
  | aliased label, e => .aliased e label
  | arithmeticLeft op r, e => .arithmetic op e r
  | arithmeticRight op l, e => .arithmetic op l e
  | negate, e => .negate e
  | choiceOperand arms otherwise, e => .choice (some e) arms otherwise
  | choiceCondition operand before result after otherwise, e =>
    .choice operand (before ++ ⟨e, result⟩ :: after) otherwise
  | choiceResult operand before condition after otherwise, e =>
    .choice operand (before ++ ⟨condition, e⟩ :: after) otherwise
  | choiceOtherwise operand arms, e => .choice operand arms (some e)
  | subquery clause, e => .subquery (clause.fill e)
  | comparisonLeft op r, e => .comparison op e r
  | comparisonRight op l, e => .comparison op l e
  | logical op before after, e => .logical op (before ++ e :: after)
  | not, e => .not e
  | likeValue p escape negated, e => .like e p escape negated
  | likePattern v escape negated, e => .like v e escape negated
  | betweenValue low high negated, e => .between e low high negated
  | betweenLow v high negated, e => .between v e high negated
  | betweenHigh v low negated, e => .between v low e negated
  | inListValue es negated, e => .inList e es negated
  | inListMember v before after negated, e => .inList v (before ++ e :: after) negated
  | inSubqueryValue q negated, e => .inSubquery e q negated
  | inSubqueryClause v clause negated, e => .inSubquery v (clause.fill e) negated
  | isNull negated, e => .isNull e negated
  | memberOf p negated, e => .memberOf e p negated
  | .exists clause negated, e => .exists (clause.fill e) negated
  | unary f, e => .unary f e
  | variadic f before after, e => .variadic f (before ++ e :: after)
  | substringValue start length, e => .substring e start length
  | substringStart v length, e => .substring v e length
  | substringLength v start, e => .substring v start (some e)
  | nullIfLeft r, e => .nullIf e r
  | nullIfRight l, e => .nullIf l e
  | aggregate f distinct, e => .aggregate f distinct e
  | function name before after, e => .function name (before ++ e :: after)
  | custom kind before after, e => .custom kind (before ++ e :: after)

/-- A query with an expression of one of its clauses left out. -/
inductive Root
  | select (clause : Clause)
  | assignment (query : Update) (before after : List Assignment) (path : Path)
  | updateFilter (query : Update)
  | deleteFilter (query : Delete)

/-- The query with the expression in its clause. -/
def Root.fill : Root → Expr → Query
  | select clause, e => .select (clause.fill e)
  | assignment q before after path, e =>
    .update { q with assignments := before ++ ⟨path, e⟩ :: after }
  | updateFilter q, e => .update { q with filter := some e }
  | deleteFilter q, e => .delete { q with filter := some e }

/-! ### Any number of steps -/

/-- A query with an expression left out: the frames around the gap, innermost first, and the clause
in which the outermost of them stands. -/
structure Place where
  root : Root
  frames : List Frame

/-- The query with the expression in its place. -/
def Place.fill (P : Place) (e : Expr) : Query :=
  P.root.fill (P.frames.foldl (fun x f => f.fill x) e)

@[simp] theorem Place.fill_nil (R : Root) (e : Expr) : (Place.mk R []).fill e = R.fill e := rfl

@[simp] theorem Place.fill_cons (R : Root) (f : Frame) (fs : List Frame) (e : Expr) :
    (Place.mk R (f :: fs)).fill e = (Place.mk R fs).fill (f.fill e) := rfl

/-! ### Lists with a gap -/

/-- For every expression with `R`, the list `C` gives for it is what `w` gives for it between two
lists that are the same for all of them. -/
def Embeds {β : Type} (R : Expr → Prop) (w C : Expr → List β) : Prop :=
  ∃ as bs, ∀ x, R x → C x = as ++ w x ++ bs

namespace Embeds

variable {β : Type} {R : Expr → Prop} {w C C' : Expr → List β}

theorem self : Embeds R w w := ⟨[], [], fun x _ => by simp⟩

theorem congr (h : Embeds R w C) (heq : ∀ x, R x → C' x = C x) : Embeds R w C' := by
  obtain ⟨as, bs, hC⟩ := h
  exact ⟨as, bs, fun x hx => by rw [heq x hx, hC x hx]⟩

theorem append_left (as : List β) (h : Embeds R w C) : Embeds R w fun x => as ++ C x := by
  obtain ⟨cs, ds, hC⟩ := h
  exact ⟨as ++ cs, ds, fun x hx => by simp [hC x hx]⟩

theorem append_right (h : Embeds R w C) (bs : List β) : Embeds R w fun x => C x ++ bs := by
  obtain ⟨cs, ds, hC⟩ := h
  exact ⟨cs, ds ++ bs, fun x hx => by simp [hC x hx]⟩

theorem cons (a : β) (h : Embeds R w C) : Embeds R w fun x => a :: C x := h.append_left [a]

/-- The list with the gap stands between others of the same kind. -/
theorem flatMap {γ : Type} {f : γ → List β} {e : Expr → γ} (before after : List γ)
    (h : Embeds R w fun x => f (e x)) :
    Embeds R w fun x => (before ++ e x :: after).flatMap f := by
  refine congr ((h.append_right (after.flatMap f)).append_left (before.flatMap f)) fun x _ => ?_
  rw [List.flatMap_append, List.flatMap_cons]

end Embeds

/-! ### Places and occurrences -/

/-- Where one expression stands in a list. -/
theorem Embeds.member {R : Expr → Prop} (before after : List Expr) :
    Embeds R (fun e => [e]) fun e => before ++ e :: after :=
  ⟨before, after, fun e _ => by simp⟩

theorem Embeds.mem {C : Expr → List Expr} (h : Embeds (fun _ => True) (fun e => [e]) C) (e : Expr) :
    e ∈ C e := by
  obtain ⟨as, bs, hC⟩ := h
  rw [hC e trivial]
  exact List.mem_append_left _ (List.mem_append_right _ List.mem_cons_self)

/-- The expressions directly inside are those around the gap and the one that is put there. -/
theorem Clause.embeds_children (c : Clause) :
    Embeds (fun _ => True) (fun e => [e]) fun e => (c.fill e).children := by
  cases c with
  | item q before after =>
    simp only [fill, Select.children]
    exact (Embeds.member before after).append_right _ |>.append_right _ |>.append_right _
      |>.append_right _ |>.append_right _
  | join q before after entity joinsBefore joinsAfter kind fetch target =>
    simp only [fill, Select.children]
    exact ((Embeds.self.flatMap joinsBefore joinsAfter).flatMap before after).append_left _
      |>.append_right _ |>.append_right _ |>.append_right _ |>.append_right _
  | filter q =>
    simp only [fill, Select.children]
    exact Embeds.self.append_left _ |>.append_right _ |>.append_right _ |>.append_right _
  | groupBy q before after =>
    simp only [fill, Select.children]
    exact (Embeds.member before after).append_left _ |>.append_right _ |>.append_right _
  | having q =>
    simp only [fill, Select.children]
    exact Embeds.self.append_left _ |>.append_right _
  | orderBy q before after order nulls =>
    simp only [fill, Select.children, List.map_append, List.map_cons]
    exact (Embeds.member _ _).append_left _

/-- The expressions directly inside an expression are those around the gap and the one that is put
there. -/
theorem Frame.embeds_children (f : Frame) :
    Embeds (fun _ => True) (fun e => [e]) fun e => (f.fill e).children := by
  cases f with
  | aliased | negate | not | isNull | memberOf | unary | aggregate => exact .self
  | subquery c => exact c.embeds_children
  | «exists» c => exact c.embeds_children
  | inSubqueryClause v c => exact c.embeds_children.cons v
  | arithmeticLeft op r => exact .member [] [r]
  | arithmeticRight op l => exact .member [l] []
  | comparisonLeft op r => exact .member [] [r]
  | comparisonRight op l => exact .member [l] []
  | likeValue p => exact .member [] [p]
  | likePattern v => exact .member [v] []
  | nullIfLeft r => exact .member [] [r]
  | nullIfRight l => exact .member [l] []
  | betweenValue low high => exact .member [] [low, high]
  | betweenLow v high => exact .member [v] [high]
  | betweenHigh v low => exact .member [v, low] []
  | logical op before after => exact .member before after
  | variadic f before after => exact .member before after
  | function name before after => exact .member before after
  | custom kind before after => exact .member before after
  | inListValue es => exact .member [] es
  | inListMember v before after => exact .member (v :: before) after
  | inSubqueryValue q => exact .member [] q.children
  | substringValue start length => exact .member [] (start :: length.toList)
  | substringStart v length => exact .member [v] length.toList
  | substringLength v start => exact .member [v, start] []
  | choiceOperand arms otherwise =>
    simp only [fill, Expr.children]
    exact Embeds.self.append_right _ |>.append_right _
  | choiceCondition operand before result after otherwise =>
    simp only [fill, Expr.children]
    exact ((Embeds.member [] [result]).flatMap before after).append_left _ |>.append_right _
  | choiceResult operand before condition after otherwise =>
    simp only [fill, Expr.children]
    exact ((Embeds.member [condition] []).flatMap before after).append_left _ |>.append_right _
  | choiceOtherwise operand arms =>
    simp only [fill, Expr.children]
    exact Embeds.self.append_left _

theorem Root.embeds_children (r : Root) :
    Embeds (fun _ => True) (fun e => [e]) fun e => (r.fill e).children := by
  cases r with
  | select c => exact c.embeds_children
  | assignment q before after path =>
    simp only [fill, Query.children, List.map_append, List.map_cons]
    exact (Embeds.member _ _).append_right _
  | updateFilter q =>
    simp only [fill, Query.children]
    exact Embeds.self.append_left _
  | deleteFilter q => exact .self

/-- What stands in a clause of a selecting query is what fills some gap of it. -/
theorem Select.mem_children_iff {q : Select} {e : Expr} :
    e ∈ q.children ↔ ∃ c : Clause, c.fill e = q := by
  constructor
  · obtain ⟨resultType, distinct, items, sources, filter, groupBy, having, orderBy⟩ := q
    simp only [Select.children, List.mem_append, Option.mem_toList, List.mem_flatMap,
      List.mem_map]
    rintro (((((h | ⟨s, hs, j, hj, h⟩) | h) | h) | h) | ⟨k, hk, h⟩)
    · obtain ⟨before, after, rfl⟩ := List.append_of_mem h
      exact ⟨.item ⟨resultType, distinct, [], sources, filter, groupBy, having, orderBy⟩
        before after, rfl⟩
    · obtain ⟨before, after, rfl⟩ := List.append_of_mem hs
      obtain ⟨entity, joins⟩ := s
      obtain ⟨joinsBefore, joinsAfter, rfl⟩ := List.append_of_mem hj
      obtain ⟨kind, fetch, target, condition⟩ := j
      obtain rfl : condition = some e := h
      exact ⟨.join ⟨resultType, distinct, items, [], filter, groupBy, having, orderBy⟩
        before after entity joinsBefore joinsAfter kind fetch target, rfl⟩
    · obtain rfl : filter = some e := h
      exact ⟨.filter ⟨resultType, distinct, items, sources, none, groupBy, having, orderBy⟩, rfl⟩
    · obtain ⟨before, after, rfl⟩ := List.append_of_mem h
      exact ⟨.groupBy ⟨resultType, distinct, items, sources, filter, [], having, orderBy⟩
        before after, rfl⟩
    · obtain rfl : having = some e := h
      exact ⟨.having ⟨resultType, distinct, items, sources, filter, groupBy, none, orderBy⟩, rfl⟩
    · obtain ⟨before, after, rfl⟩ := List.append_of_mem hk
      obtain ⟨key, order, nulls⟩ := k
      obtain rfl : key = e := h
      exact ⟨.orderBy ⟨resultType, distinct, items, sources, filter, groupBy, having, []⟩
        before after order nulls, rfl⟩
  · rintro ⟨c, rfl⟩
    exact c.embeds_children.mem e

/-- What stands directly in an expression is what fills some gap of it. -/
theorem Expr.mem_children_iff {x e : Expr} : e ∈ x.children ↔ ∃ f : Frame, f.fill e = x := by
  constructor
  · intro h
    cases x with
    | literal | parameter | path | entity | isEmpty | current => cases h
    | aliased v label =>
      obtain rfl := List.mem_singleton.1 h
      exact ⟨.aliased label, rfl⟩
    | negate v =>
      obtain rfl := List.mem_singleton.1 h
      exact ⟨.negate, rfl⟩
    | not v =>
      obtain rfl := List.mem_singleton.1 h
      exact ⟨.not, rfl⟩
    | isNull v negated =>
      obtain rfl := List.mem_singleton.1 h
      exact ⟨.isNull negated, rfl⟩
    | memberOf v p negated =>
      obtain rfl := List.mem_singleton.1 h
      exact ⟨.memberOf p negated, rfl⟩
    | unary f v =>
      obtain rfl := List.mem_singleton.1 h
      exact ⟨.unary f, rfl⟩
    | aggregate f distinct v =>
      obtain rfl := List.mem_singleton.1 h
      exact ⟨.aggregate f distinct, rfl⟩
    | arithmetic op l r =>
      rcases List.mem_pair.1 h with rfl | rfl
      · exact ⟨.arithmeticLeft op r, rfl⟩
      · exact ⟨.arithmeticRight op l, rfl⟩
    | comparison op l r =>
      rcases List.mem_pair.1 h with rfl | rfl
      · exact ⟨.comparisonLeft op r, rfl⟩
      · exact ⟨.comparisonRight op l, rfl⟩
    | like v p escape negated =>
      rcases List.mem_pair.1 h with rfl | rfl
      · exact ⟨.likeValue p escape negated, rfl⟩
      · exact ⟨.likePattern v escape negated, rfl⟩
    | nullIf l r =>
      rcases List.mem_pair.1 h with rfl | rfl
      · exact ⟨.nullIfLeft r, rfl⟩
      · exact ⟨.nullIfRight l, rfl⟩
    | between v low high negated =>
      rcases List.mem_cons.1 h with rfl | h
      · exact ⟨.betweenValue low high negated, rfl⟩
      · rcases List.mem_pair.1 h with rfl | rfl
        · exact ⟨.betweenLow v high negated, rfl⟩
        · exact ⟨.betweenHigh v low negated, rfl⟩
    | choice operand arms otherwise =>
      simp only [Expr.children, List.mem_append, Option.mem_toList, List.mem_flatMap,
        List.mem_pair] at h
      rcases h with (rfl | ⟨⟨condition, result⟩, harm, h⟩) | rfl
      · exact ⟨.choiceOperand arms otherwise, rfl⟩
      · obtain ⟨before, after, rfl⟩ := List.append_of_mem harm
        rcases h with rfl | rfl
        · exact ⟨.choiceCondition operand before result after otherwise, rfl⟩
        · exact ⟨.choiceResult operand before condition after otherwise, rfl⟩
      · exact ⟨.choiceOtherwise operand arms, rfl⟩
    | subquery q =>
      obtain ⟨c, rfl⟩ := Select.mem_children_iff.1 h
      exact ⟨.subquery c, rfl⟩
    | «exists» q negated =>
      obtain ⟨c, rfl⟩ := Select.mem_children_iff.1 h
      exact ⟨.exists c negated, rfl⟩
    | inSubquery v q negated =>
      rcases List.mem_cons.1 h with rfl | h
      · exact ⟨.inSubqueryValue q negated, rfl⟩
      · obtain ⟨c, rfl⟩ := Select.mem_children_iff.1 h
        exact ⟨.inSubqueryClause v c negated, rfl⟩
    | inList v es negated =>
      rcases List.mem_cons.1 h with rfl | h
      · exact ⟨.inListValue es negated, rfl⟩
      · obtain ⟨before, after, rfl⟩ := List.append_of_mem h
        exact ⟨.inListMember v before after negated, rfl⟩
    | logical op es =>
      obtain ⟨before, after, rfl⟩ := List.append_of_mem h
      exact ⟨.logical op before after, rfl⟩
    | variadic f es =>
      obtain ⟨before, after, rfl⟩ := List.append_of_mem h
      exact ⟨.variadic f before after, rfl⟩
    | function name es =>
      obtain ⟨before, after, rfl⟩ := List.append_of_mem h
      exact ⟨.function name before after, rfl⟩
    | custom kind es =>
      obtain ⟨before, after, rfl⟩ := List.append_of_mem h
      exact ⟨.custom kind before after, rfl⟩
    | substring v start length =>
      rcases List.mem_cons.1 h with rfl | h
      · exact ⟨.substringValue start length, rfl⟩
      rcases List.mem_cons.1 h with rfl | h
      · exact ⟨.substringStart v length, rfl⟩
      · obtain rfl : length = some e := Option.mem_toList.1 h
        exact ⟨.substringLength v start, rfl⟩
  · rintro ⟨f, rfl⟩
    exact f.embeds_children.mem e

/-- What stands in a clause of a query is what fills some gap of it. -/
theorem Query.mem_children_iff {q : Query} {e : Expr} :
    e ∈ q.children ↔ ∃ r : Root, r.fill e = q := by
  constructor
  · intro h
    cases q with
    | select q =>
      obtain ⟨c, rfl⟩ := Select.mem_children_iff.1 h
      exact ⟨.select c, rfl⟩
    | update q =>
      obtain ⟨entity, assignments, filter⟩ := q
      rcases List.mem_append.1 h with h | h
      · obtain ⟨⟨path, value⟩, ha, rfl⟩ := List.mem_map.1 h
        obtain ⟨before, after, rfl⟩ := List.append_of_mem ha
        exact ⟨.assignment ⟨entity, [], filter⟩ before after path, rfl⟩
      · obtain rfl : filter = some e := Option.mem_toList.1 h
        exact ⟨.updateFilter ⟨entity, assignments, none⟩, rfl⟩
    | delete q =>
      obtain ⟨entity, filter⟩ := q
      obtain rfl : filter = some e := Option.mem_toList.1 h
      exact ⟨.deleteFilter ⟨entity, none⟩, rfl⟩
  · rintro ⟨r, rfl⟩
    exact r.embeds_children.mem e

/-- What occurs in a query is what fills some place of it. -/
theorem Query.occurs_iff {q : Query} {e : Expr} : q.Occurs e ↔ ∃ P : Place, P.fill e = q := by
  constructor
  · intro h
    induction h with
    | clause h =>
      obtain ⟨r, hr⟩ := Query.mem_children_iff.1 h
      exact ⟨⟨r, []⟩, hr⟩
    | inside _ hf ih =>
      obtain ⟨⟨r, fs⟩, hP⟩ := ih
      obtain ⟨f, rfl⟩ := Expr.mem_children_iff.1 hf
      exact ⟨⟨r, f :: fs⟩, hP⟩
  · rintro ⟨⟨r, fs⟩, rfl⟩
    induction fs generalizing e with
    | nil => exact .clause (Query.mem_children_iff.2 ⟨r, rfl⟩)
    | cons f fs ih => exact .inside ih (Expr.mem_children_iff.2 ⟨f, rfl⟩)

/-! ### What a place does not show -/

/-- A function of expressions that does not depend on the operand in a frame. -/
def IsShallow {α : Type} (g : Expr → α) : Prop :=
  ∀ (f : Frame) (x y : Expr), g (f.fill x) = g (f.fill y)

/-- The nodes of a query are those around the place and those of the expression that is put there,
as far as a shallow function can tell. -/
theorem Place.embeds_nodes {α : Type} {g : Expr → α} (hg : IsShallow g) (P : Place) :
    Embeds (fun _ => True) (fun e => e.nodes.map g) fun e => (P.fill e).nodes.map g := by
  obtain ⟨r, fs⟩ := P
  have hchildren : ∀ C : Expr → List Expr, Embeds (fun _ => True) (fun e => [e]) C →
      Embeds (fun _ => True) (fun e => e.nodes.map g)
        fun e => ((C e).flatMap Expr.nodes).map g := by
    rintro C ⟨as, bs, hC⟩
    refine ⟨(as.flatMap Expr.nodes).map g, (bs.flatMap Expr.nodes).map g, fun e _ => ?_⟩
    have he : C e = as ++ [e] ++ bs := hC e trivial
    simp [he]
  induction fs with
  | nil => exact (hchildren _ r.embeds_children).congr fun e _ => by rw [fill_nil, Query.nodes_eq]
  | cons f fs ih =>
    obtain ⟨as, bs, hinner⟩ := hchildren _ f.embeds_children
    obtain ⟨cs, ds, houter⟩ := ih
    refine ⟨cs ++ g (f.fill (.literal .null)) :: as, bs ++ ds, fun e _ => ?_⟩
    have hin : ((f.fill e).children.flatMap Expr.nodes).map g = as ++ e.nodes.map g ++ bs :=
      hinner e trivial
    have hout : ((Place.mk r fs).fill (f.fill e)).nodes.map g
        = cs ++ (f.fill e).nodes.map g ++ ds := houter (f.fill e) trivial
    show ((Place.mk r (f :: fs)).fill e).nodes.map g = _
    rw [fill_cons, hout, Expr.nodes_eq, List.map_cons, hin, hg f e (.literal .null)]
    simp

theorem Clause.checkShape_fill (c : Clause) (x y : Expr) :
    (c.fill x).checkShape = (c.fill y).checkShape := by
  cases c with
  | join q before after entity joinsBefore joinsAfter kind fetch target =>
    -- a join is asked whether it has a condition, not for the condition
    have hsource : ∀ x y, (Source.mk entity
          (joinsBefore ++ ⟨kind, fetch, target, some x⟩ :: joinsAfter)).checkShape
        = (Source.mk entity
          (joinsBefore ++ ⟨kind, fetch, target, some y⟩ :: joinsAfter)).checkShape := by
      intro x y
      simp [Source.checkShape, Join.checkShape]
    simp [fill, Select.checkShape, hsource x y]
  | _ => simp [fill, Select.checkShape]

/-- The rules of one expression do not look into its operands. -/
theorem Expr.isShallow_checkShape : IsShallow Expr.checkShape := by
  intro f x y
  cases f with
  | subquery c => exact c.checkShape_fill x y
  | «exists» c => exact c.checkShape_fill x y
  | inSubqueryClause v c => exact c.checkShape_fill x y
  | inListMember v before after negated => simp [Frame.fill, Expr.checkShape]
  | _ => rfl

theorem Expr.isShallow_parameter? : IsShallow Expr.parameter? := by
  intro f x y
  cases f <;> rfl

theorem Root.checkRoot_fill (r : Root) (x y : Expr) :
    (r.fill x).checkRoot = (r.fill y).checkRoot := by
  cases r with
  | select c => exact c.checkShape_fill x y
  | assignment q before after path => simp [fill, Query.checkRoot]
  | updateFilter q => rfl
  | deleteFilter q => rfl

end PersistenceQuery
