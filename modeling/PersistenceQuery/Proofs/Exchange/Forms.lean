import PersistenceQuery.Proofs.Exchange.Value
import PersistenceQuery.Proofs.Query.Occurrence

/-!
# Reading back expressions and clauses

Each form of an expression has a tag of its own, and what stands under the tag has a field for each
part, so an expression is read back from its JSON form if the expressions directly inside it are;
the same is said of the clauses of a selecting query.  Fields may stand in any order.

## Main definitions

* `Expr.IsRead` — the expression is read back from its JSON form.
* `Expr.ownValues` — the values that an expression holds itself.

## Main results

* `Path.reads`, `Entity.reads`, `JoinTarget.reads`, `Join.reads`, `Select.reads` — what holds no
  expressions is read back, and so are the clauses whose expressions are.
* `Expr.isRead_of_children` — the step from the expressions inside an expression to the expression.
-/

namespace PersistenceQuery

open Json

/-! ### Leaves -/

theorem Path.reads (p : Path) : Reads Path.ofJson? p.toJson p := by
  refine .record rfl (by simp) fun hr holds => ?_
  have hsegments : Reads (list? text?) (.array (p.segments.map .string)) p.segments :=
    .list fun s _ => .text s
  exact andThen hr <| andThen (holds.required (by simp) fun _ => hsegments _) rfl

theorem Entity.reads (e : Entity) : Reads Entity.ofJson? e.toJson e := by
  refine .record rfl (by simp) fun hr holds => ?_
  exact andThen hr <|
    andThen (holds.required (by simp) fun _ => Reads.text e.name _) <|
    andThen (holds.required (by simp) fun _ => Reads.text e.label _) rfl

theorem JoinTarget.reads (t : JoinTarget) : Reads JoinTarget.ofJson? t.toJson t := by
  intro i hi
  cases t with
  | entity e =>
    obtain ⟨w, rfl, hw⟩ := hi.exists_single
    exact e.reads.map JoinTarget.entity w hw
  | association path label =>
    obtain ⟨w, rfl, hw⟩ := hi.exists_single
    obtain ⟨r, hr, holds⟩ := hw.exists_record rfl (by simp)
    exact andThen hr <|
      andThen (holds.required (by simp) fun _ => path.reads _) <|
      andThen (holds.required (by simp) fun _ => Reads.text label _) rfl

/-! ### Optional expressions and lists -/

/-- The expression is read back from its JSON form. -/
def Expr.IsRead (e : Expr) : Prop := Reads Expr.ofJson? e.toJson e

theorem Expr.toJson_ne_null (e : Expr) : e.toJson ≠ .null := by
  cases e <;> intro h <;> cases h

/-- An optional expression is written as `null` or as itself. -/
theorem Json.Record.Holds.optionalExpr {j : Json} {r : Record j} {fields : List (String × Json)}
    {key : String} {o : Option Expr} (holds : r.Holds fields)
    (hmem : (key, optionToJson o) ∈ fields) (ho : ∀ e ∈ o.toList, e.IsRead) :
    r.optional key (fun w => Expr.ofJson? w.1) = some o := by
  have hform : optionToJson o = .optional Expr.toJson o := by cases o <;> rfl
  rw [hform] at hmem
  exact holds.optional hmem (fun e _ => e.toJson_ne_null) fun e he w =>
    ho e (Option.mem_toList.2 he) w.1

theorem listToJson_eq_map (es : List Expr) : listToJson es = es.map Expr.toJson := by
  induction es with
  | nil => rfl
  | cons e es ih => rw [listToJson, ih, List.map_cons]

theorem reads_list {es : List Expr} (h : ∀ e ∈ es, e.IsRead) :
    Reads listOfJson? (.array (listToJson es)) es := by
  intro i hi
  rw [listToJson_eq_map] at hi
  rw [listOfJson?]
  exact Reads.items h i hi

/-- One arm in JSON: an object of the two expressions. -/
def Arm.toJson (a : Arm) : Json :=
  .object [("condition", a.condition.toJson), ("result", a.result.toJson)]

theorem armsToJson_eq_map (arms : List Arm) : armsToJson arms = arms.map Arm.toJson := by
  induction arms with
  | nil => rfl
  | cons arm arms ih =>
    obtain ⟨condition, result⟩ := arm
    rw [armsToJson, ih, List.map_cons, Arm.toJson]

theorem Arm.reads {arm : Arm} (hcondition : arm.condition.IsRead) (hresult : arm.result.IsRead) :
    Reads Arm.ofJson? arm.toJson arm := by
  obtain ⟨condition, result⟩ := arm
  refine .record rfl (by simp) fun hr holds => ?_
  rw [Arm.ofJson?]
  exact andThen hr <|
    andThen (holds.required (by simp) fun _ => hcondition _) <|
    andThen (holds.required (by simp) fun _ => hresult _) rfl

theorem reads_arms {arms : List Arm} (h : ∀ a ∈ arms, a.condition.IsRead ∧ a.result.IsRead) :
    Reads armsOfJson? (.array (armsToJson arms)) arms := by
  intro i hi
  rw [armsToJson_eq_map] at hi
  rw [armsOfJson?]
  exact Reads.items (fun a ha => Arm.reads (h a ha).1 (h a ha).2) i hi

/-! ### Clauses -/

theorem Join.reads {join : Join} (h : ∀ e ∈ join.condition.toList, e.IsRead) :
    Reads Join.ofJson? join.toJson join := by
  obtain ⟨kind, fetch, target, condition⟩ := join
  refine .record rfl (by simp) fun hr holds => ?_
  rw [Join.ofJson?]
  exact andThen hr <|
    andThen (holds.required (by simp) fun _ => Reads.named kind.ofName?_name _) <|
    andThen (holds.defaulted (by simp) false fun _ => Reads.flag fetch _) <|
    andThen (holds.required (by simp) fun _ => target.reads _) <|
    andThen (holds.optionalExpr (by simp) h) rfl

theorem joinsToJson_eq_map (joins : List Join) : joinsToJson joins = joins.map Join.toJson := by
  induction joins with
  | nil => rfl
  | cons join joins ih => rw [joinsToJson, ih, List.map_cons]

theorem reads_joins {joins : List Join} (h : ∀ j ∈ joins, ∀ e ∈ j.condition.toList, e.IsRead) :
    Reads joinsOfJson? (.array (joinsToJson joins)) joins := by
  intro i hi
  rw [joinsToJson_eq_map] at hi
  rw [joinsOfJson?]
  exact Reads.items (fun j hj => Join.reads (h j hj)) i hi

/-- One item of a `FROM` clause in JSON. -/
def Source.toJson (s : Source) : Json :=
  .object [("entity", s.entity.toJson), ("joins", .array (joinsToJson s.joins))]

theorem sourcesToJson_eq_map (sources : List Source) :
    sourcesToJson sources = sources.map Source.toJson := by
  induction sources with
  | nil => rfl
  | cons s sources ih =>
    obtain ⟨entity, joins⟩ := s
    rw [sourcesToJson, ih, List.map_cons, Source.toJson]

theorem Source.reads {s : Source} (h : ∀ j ∈ s.joins, ∀ e ∈ j.condition.toList, e.IsRead) :
    Reads Source.ofJson? s.toJson s := by
  obtain ⟨entity, joins⟩ := s
  refine .record rfl (by simp) fun hr holds => ?_
  rw [Source.ofJson?]
  exact andThen hr <|
    andThen (holds.required (by simp) fun _ => entity.reads _) <|
    andThen (holds.defaulted (by simp) [] fun _ => reads_joins h _) rfl

theorem reads_sources {sources : List Source}
    (h : ∀ s ∈ sources, ∀ j ∈ s.joins, ∀ e ∈ j.condition.toList, e.IsRead) :
    Reads sourcesOfJson? (.array (sourcesToJson sources)) sources := by
  intro i hi
  rw [sourcesToJson_eq_map] at hi
  rw [sourcesOfJson?]
  exact Reads.items (fun s hs => Source.reads (h s hs)) i hi

theorem SortKey.reads {k : SortKey} (h : k.key.IsRead) : Reads SortKey.ofJson? k.toJson k := by
  obtain ⟨key, order, nulls⟩ := k
  refine .record rfl (by simp) fun hr holds => ?_
  rw [SortKey.ofJson?]
  exact andThen hr <|
    andThen (holds.required (by simp) fun _ => h _) <|
    andThen (holds.defaulted (by simp) .asc fun _ => Reads.named order.ofName?_name _) <|
    andThen (holds.optionalText (by simp) fun n => .named n.ofName?_name) rfl

theorem keysToJson_eq_map (keys : List SortKey) : keysToJson keys = keys.map SortKey.toJson := by
  induction keys with
  | nil => rfl
  | cons k keys ih => rw [keysToJson, ih, List.map_cons]

theorem reads_keys {keys : List SortKey} (h : ∀ k ∈ keys, k.key.IsRead) :
    Reads keysOfJson? (.array (keysToJson keys)) keys := by
  intro i hi
  rw [keysToJson_eq_map] at hi
  rw [keysOfJson?]
  exact Reads.items (fun k hk => SortKey.reads (h k hk)) i hi

/-- A selecting query is read back if the expressions in its clauses are. -/
theorem Select.reads {q : Select} (h : ∀ e ∈ q.children, e.IsRead) :
    Reads Select.ofJson? q.toJson q := by
  obtain ⟨resultType, distinct, items, sources, filter, groupBy, having, orderBy⟩ := q
  simp only [Select.children, List.forall_mem_append, List.forall_mem_map,
    List.forall_mem_flatMap] at h
  obtain ⟨⟨⟨⟨⟨hitems, hsources⟩, hfilter⟩, hgroup⟩, hhaving⟩, horder⟩ := h
  refine .record rfl (by simp) fun hr holds => ?_
  rw [Select.ofJson?]
  exact andThen hr <|
    andThen (holds.required (by simp) fun _ => Reads.text resultType _) <|
    andThen (holds.defaulted (by simp) false fun _ => Reads.flag distinct _) <|
    andThen (holds.required (by simp) fun _ => reads_list hitems _) <|
    andThen (holds.required (by simp) fun _ => reads_sources hsources _) <|
    andThen (holds.optionalExpr (by simp) hfilter) <|
    andThen (holds.defaulted (by simp) [] fun _ => reads_list hgroup _) <|
    andThen (holds.optionalExpr (by simp) hhaving) <|
    andThen (holds.defaulted (by simp) [] fun _ => reads_keys horder _) rfl

/-! ### Expressions -/

namespace Expr

/-- The values that an expression holds itself: that of a literal, and the one that a parameter
brings. -/
def ownValues : Expr → List Value
  | .literal v => [v]
  | .parameter _ embedded => embedded.toList
  | _ => []

/-- What stands under a tag is read for that tag. -/
theorem isRead_of_tag {t : Tag} {body : Json} {e : Expr} (hform : e.toJson = t.object body)
    (h : Reads (Expr.ofTagged? t) body e) : e.IsRead := by
  intro i hi
  rw [hform] at hi
  obtain ⟨w, rfl, hw⟩ := hi.exists_single
  simp only [Expr.ofJson?, Tag.ofName?_name]
  exact h w hw

theorem isRead_literal {v : Value} (hv : v.isFinite = true) : (Expr.literal v).IsRead := by
  refine isRead_of_tag rfl fun i hi => ?_
  rw [Expr.ofTagged?]
  exact (Value.reads_tagged hv).map Expr.literal i hi

theorem isRead_parameter {name : String} {embedded : Option Value}
    (hv : ∀ v ∈ embedded, v.isFinite = true) : (Expr.parameter name embedded).IsRead := by
  refine isRead_of_tag rfl (.record rfl (by simp) fun hr holds => ?_)
  rw [Expr.ofTagged?]
  exact andThen hr <|
    andThen (holds.required (by simp) fun _ => Reads.text name _) <|
    andThen (holds.optional (by simp) (fun v _ => v.tagged_ne_null) fun v hmem w =>
      Value.reads_tagged (hv v hmem) w.1) rfl

theorem isRead_path (p : Path) : (Expr.path p).IsRead := by
  refine isRead_of_tag rfl fun i hi => ?_
  rw [Expr.ofTagged?]
  exact p.reads.map Expr.path i hi

theorem isRead_entity (e : Entity) : (Expr.entity e).IsRead := by
  refine isRead_of_tag rfl fun i hi => ?_
  rw [Expr.ofTagged?]
  exact e.reads.map Expr.entity i hi

theorem isRead_current (m : Moment) : (Expr.current m).IsRead := by
  intro i hi
  rw [hi.eq_string, Expr.ofJson?, Moment.ofName?_name]
  rfl

section
variable {l r v low high start : Expr} {es : List Expr} {q : Select} {o : Option Expr}

theorem isRead_aliased {label : String} (hv : v.IsRead) : (Expr.aliased v label).IsRead := by
  refine isRead_of_tag rfl (.record rfl (by simp) fun hf holds => ?_)
  rw [Expr.ofTagged?]
  exact andThen hf <|
    andThen (holds.required (by simp) fun _ => hv _) <|
    andThen (holds.required (by simp) fun _ => Reads.text label _) rfl

theorem isRead_arithmetic {op : ArithmeticOp} (hl : l.IsRead) (hr : r.IsRead) :
    (Expr.arithmetic op l r).IsRead := by
  refine isRead_of_tag rfl (.record rfl (by simp) fun hf holds => ?_)
  rw [Expr.ofTagged?]
  exact andThen hf <|
    andThen (holds.required (by simp) fun _ => Reads.named op.ofName?_name _) <|
    andThen (holds.required (by simp) fun _ => hl _) <|
    andThen (holds.required (by simp) fun _ => hr _) rfl

theorem isRead_negate (hv : v.IsRead) : (Expr.negate v).IsRead := by
  refine isRead_of_tag rfl fun i hi => ?_
  rw [Expr.ofTagged?]
  exact Reads.map hv Expr.negate i hi

theorem isRead_choice {operand : Option Expr} {arms : List Arm}
    (hoperand : ∀ e ∈ operand.toList, e.IsRead)
    (harms : ∀ a ∈ arms, a.condition.IsRead ∧ a.result.IsRead) (ho : ∀ e ∈ o.toList, e.IsRead) :
    (Expr.choice operand arms o).IsRead := by
  refine isRead_of_tag rfl (.record rfl (by simp) fun hf holds => ?_)
  rw [Expr.ofTagged?]
  exact andThen hf <|
    andThen (holds.optionalExpr (by simp) hoperand) <|
    andThen (holds.required (by simp) fun _ => reads_arms harms _) <|
    andThen (holds.optionalExpr (by simp) ho) rfl

theorem isRead_subquery (hq : Reads Select.ofJson? q.toJson q) : (Expr.subquery q).IsRead := by
  refine isRead_of_tag rfl fun i hi => ?_
  rw [Expr.ofTagged?]
  exact hq.map Expr.subquery i hi

theorem isRead_comparison {op : ComparisonOp} (hl : l.IsRead) (hr : r.IsRead) :
    (Expr.comparison op l r).IsRead := by
  refine isRead_of_tag rfl (.record rfl (by simp) fun hf holds => ?_)
  rw [Expr.ofTagged?]
  exact andThen hf <|
    andThen (holds.required (by simp) fun _ => Reads.named op.ofName?_name _) <|
    andThen (holds.required (by simp) fun _ => hl _) <|
    andThen (holds.required (by simp) fun _ => hr _) rfl

theorem isRead_logical {op : LogicalOp} (hes : ∀ e ∈ es, e.IsRead) :
    (Expr.logical op es).IsRead := by
  refine isRead_of_tag rfl (.record rfl (by simp) fun hf holds => ?_)
  rw [Expr.ofTagged?]
  exact andThen hf <|
    andThen (holds.required (by simp) fun _ => Reads.named op.ofName?_name _) <|
    andThen (holds.required (by simp) fun _ => reads_list hes _) rfl

theorem isRead_not (hv : v.IsRead) : (Expr.not v).IsRead := by
  refine isRead_of_tag rfl fun i hi => ?_
  rw [Expr.ofTagged?]
  exact Reads.map hv Expr.not i hi

theorem isRead_like {escape : Option Char} {negated : Bool} (hl : l.IsRead) (hr : r.IsRead) :
    (Expr.like l r escape negated).IsRead := by
  refine isRead_of_tag rfl (.record rfl (by simp) fun hf holds => ?_)
  rw [Expr.ofTagged?]
  exact andThen hf <|
    andThen (holds.required (by simp) fun _ => hl _) <|
    andThen (holds.required (by simp) fun _ => hr _) <|
    andThen (holds.optionalText (by simp) Reads.character) <|
    andThen (holds.required (by simp) fun _ => Reads.flag negated _) rfl

theorem isRead_between {negated : Bool} (hv : v.IsRead) (hlow : low.IsRead) (hhigh : high.IsRead) :
    (Expr.between v low high negated).IsRead := by
  refine isRead_of_tag rfl (.record rfl (by simp) fun hf holds => ?_)
  rw [Expr.ofTagged?]
  exact andThen hf <|
    andThen (holds.required (by simp) fun _ => hv _) <|
    andThen (holds.required (by simp) fun _ => hlow _) <|
    andThen (holds.required (by simp) fun _ => hhigh _) <|
    andThen (holds.required (by simp) fun _ => Reads.flag negated _) rfl

theorem isRead_inList {negated : Bool} (hv : v.IsRead) (hes : ∀ e ∈ es, e.IsRead) :
    (Expr.inList v es negated).IsRead := by
  refine isRead_of_tag rfl (.record rfl (by simp) fun hf holds => ?_)
  rw [Expr.ofTagged?]
  exact andThen hf <|
    andThen (holds.required (by simp) fun _ => hv _) <|
    andThen (holds.required (by simp) fun _ => reads_list hes _) <|
    andThen (holds.required (by simp) fun _ => Reads.flag negated _) rfl

theorem isRead_inSubquery {negated : Bool} (hv : v.IsRead)
    (hq : Reads Select.ofJson? q.toJson q) : (Expr.inSubquery v q negated).IsRead := by
  refine isRead_of_tag rfl (.record rfl (by simp) fun hf holds => ?_)
  rw [Expr.ofTagged?]
  exact andThen hf <|
    andThen (holds.required (by simp) fun _ => hv _) <|
    andThen (holds.required (by simp) fun _ => hq _) <|
    andThen (holds.required (by simp) fun _ => Reads.flag negated _) rfl

theorem isRead_isNull {negated : Bool} (hv : v.IsRead) : (Expr.isNull v negated).IsRead := by
  refine isRead_of_tag rfl (.record rfl (by simp) fun hf holds => ?_)
  rw [Expr.ofTagged?]
  exact andThen hf <|
    andThen (holds.required (by simp) fun _ => hv _) <|
    andThen (holds.required (by simp) fun _ => Reads.flag negated _) rfl

theorem isRead_isEmpty (p : Path) (negated : Bool) : (Expr.isEmpty p negated).IsRead := by
  refine isRead_of_tag rfl (.record rfl (by simp) fun hf holds => ?_)
  rw [Expr.ofTagged?]
  exact andThen hf <|
    andThen (holds.required (by simp) fun _ => p.reads _) <|
    andThen (holds.required (by simp) fun _ => Reads.flag negated _) rfl

theorem isRead_memberOf {p : Path} {negated : Bool} (hv : v.IsRead) :
    (Expr.memberOf v p negated).IsRead := by
  refine isRead_of_tag rfl (.record rfl (by simp) fun hf holds => ?_)
  rw [Expr.ofTagged?]
  exact andThen hf <|
    andThen (holds.required (by simp) fun _ => hv _) <|
    andThen (holds.required (by simp) fun _ => p.reads _) <|
    andThen (holds.required (by simp) fun _ => Reads.flag negated _) rfl

theorem isRead_exists {negated : Bool} (hq : Reads Select.ofJson? q.toJson q) :
    (Expr.exists q negated).IsRead := by
  refine isRead_of_tag rfl (.record rfl (by simp) fun hf holds => ?_)
  rw [Expr.ofTagged?]
  exact andThen hf <|
    andThen (holds.required (by simp) fun _ => hq _) <|
    andThen (holds.required (by simp) fun _ => Reads.flag negated _) rfl

theorem isRead_unary {f : UnaryFunction} (hv : v.IsRead) : (Expr.unary f v).IsRead := by
  refine isRead_of_tag rfl fun i hi => ?_
  rw [Expr.ofTagged?]
  exact Reads.map hv (Expr.unary f) i hi

theorem isRead_variadic {f : ListFunction} (hes : ∀ e ∈ es, e.IsRead) :
    (Expr.variadic f es).IsRead := by
  refine isRead_of_tag rfl fun i hi => ?_
  rw [Expr.ofTagged?]
  exact (reads_list hes).map (Expr.variadic f) i hi

theorem isRead_substring (hv : v.IsRead) (hstart : start.IsRead) (ho : ∀ e ∈ o.toList, e.IsRead) :
    (Expr.substring v start o).IsRead := by
  refine isRead_of_tag rfl (.record rfl (by simp) fun hf holds => ?_)
  rw [Expr.ofTagged?]
  exact andThen hf <|
    andThen (holds.required (by simp) fun _ => hv _) <|
    andThen (holds.required (by simp) fun _ => hstart _) <|
    andThen (holds.optionalExpr (by simp) ho) rfl

theorem isRead_nullIf (hl : l.IsRead) (hr : r.IsRead) : (Expr.nullIf l r).IsRead := by
  refine isRead_of_tag rfl (.record rfl (by simp) fun hf holds => ?_)
  rw [Expr.ofTagged?]
  exact andThen hf <|
    andThen (holds.required (by simp) fun _ => hl _) <|
    andThen (holds.required (by simp) fun _ => hr _) rfl

theorem isRead_aggregate {f : AggregateFunction} {distinct : Bool} (hv : v.IsRead) :
    (Expr.aggregate f distinct v).IsRead := by
  refine isRead_of_tag rfl (.record rfl (by simp) fun hr holds => ?_)
  rw [Expr.ofTagged?]
  exact andThen hr <|
    andThen (holds.required (by simp) fun _ => Reads.named f.ofName?_name _) <|
    andThen (holds.required (by simp) fun _ => Reads.flag distinct _) <|
    andThen (holds.required (by simp) fun _ => hv _) rfl

theorem isRead_function {name : String} (hes : ∀ e ∈ es, e.IsRead) :
    (Expr.function name es).IsRead := by
  refine isRead_of_tag rfl (.record rfl (by simp) fun hf holds => ?_)
  rw [Expr.ofTagged?]
  exact andThen hf <|
    andThen (holds.required (by simp) fun _ => Reads.text name _) <|
    andThen (holds.required (by simp) fun _ => reads_list hes _) rfl

theorem isRead_custom {kind : String} (hes : ∀ e ∈ es, e.IsRead) :
    (Expr.custom kind es).IsRead := by
  refine isRead_of_tag rfl (.record rfl (by simp) fun hf holds => ?_)
  rw [Expr.ofTagged?]
  exact andThen hf <|
    andThen (holds.required (by simp) fun _ => Reads.text kind _) <|
    andThen (holds.required (by simp) fun _ => reads_list hes _) rfl

end

/-- An expression is read back if its own values are finite and the expressions directly inside it
are read back. -/
theorem isRead_of_children (e : Expr) (hvalues : ∀ v ∈ e.ownValues, v.isFinite = true)
    (ih : ∀ c ∈ e.children, c.IsRead) : e.IsRead := by
  cases e with
  | literal v => exact isRead_literal (hvalues v List.mem_cons_self)
  | parameter name embedded =>
    exact isRead_parameter fun v hv => hvalues v (Option.mem_toList.2 hv)
  | path p => exact isRead_path p
  | entity e => exact isRead_entity e
  | isEmpty p negated => exact isRead_isEmpty p negated
  | current m => exact isRead_current m
  | aliased v label => exact isRead_aliased (ih v (by simp [children]))
  | negate v => exact isRead_negate (ih v (by simp [children]))
  | not v => exact isRead_not (ih v (by simp [children]))
  | isNull v negated => exact isRead_isNull (ih v (by simp [children]))
  | memberOf v p negated => exact isRead_memberOf (ih v (by simp [children]))
  | unary f v => exact isRead_unary (ih v (by simp [children]))
  | aggregate f distinct v => exact isRead_aggregate (ih v (by simp [children]))
  | arithmetic op l r =>
    exact isRead_arithmetic (ih l (by simp [children])) (ih r (by simp [children]))
  | comparison op l r =>
    exact isRead_comparison (ih l (by simp [children])) (ih r (by simp [children]))
  | like l r escape negated =>
    exact isRead_like (ih l (by simp [children])) (ih r (by simp [children]))
  | nullIf l r => exact isRead_nullIf (ih l (by simp [children])) (ih r (by simp [children]))
  | between v low high negated =>
    exact isRead_between (ih v (by simp [children])) (ih low (by simp [children]))
      (ih high (by simp [children]))
  | choice operand arms otherwise =>
    refine isRead_choice (fun e he => ih e ?_) (fun a ha => ⟨ih a.condition ?_, ih a.result ?_⟩)
      fun e he => ih e ?_
    all_goals simp only [children, List.mem_append, List.mem_flatMap]
    · exact .inl (.inl he)
    · exact .inl (.inr ⟨a, ha, by simp⟩)
    · exact .inl (.inr ⟨a, ha, by simp⟩)
    · exact .inr he
  | subquery q => exact isRead_subquery (Select.reads ih)
  | «exists» q negated => exact isRead_exists (Select.reads ih)
  | logical op es => exact isRead_logical ih
  | variadic f es => exact isRead_variadic ih
  | function name es => exact isRead_function ih
  | custom kind es => exact isRead_custom ih
  | inList v es negated =>
    obtain ⟨hv, hes⟩ := List.forall_mem_cons.1 ih
    exact isRead_inList hv hes
  | inSubquery v q negated =>
    obtain ⟨hv, hq⟩ := List.forall_mem_cons.1 ih
    exact isRead_inSubquery hv (Select.reads hq)
  | substring v start length =>
    obtain ⟨hv, hrest⟩ := List.forall_mem_cons.1 ih
    obtain ⟨hstart, hlength⟩ := List.forall_mem_cons.1 hrest
    exact isRead_substring hv hstart hlength

end Expr

end PersistenceQuery
