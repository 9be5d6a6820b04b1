import PersistenceQuery.Proofs.Rendering.Outcome

/-!
# What is handed to the dialect

The layout of a part is made of words and names, which never fail, and of the parts directly inside,
which it hands to the dialect.  So where it fails, it fails with one of these.  The exceptions are
the parts with a token of their own that can be missing: literals, parameters and tests for no
members.

## Main definitions

* `Part.inner` — the parts directly inside a part, in the order of writing.
* `Delegated` — emissions that write parts by a dialect, with others that never fail.

## Main results

* `Delegated.exists_failing` — what fails is one of the parts handed to the dialect.
* `Part.delegated_layout` — the layout of a part hands the parts inside it to the dialect.
-/

namespace PersistenceQuery

open Emission (keyword parenthesized separated operand call)

/-! ### The parts directly inside a part -/

/-- A joined entity is a part; an association is written by its join. -/
def JoinTarget.inner : JoinTarget → List Part
  | .entity e => [.entity e]
  | .association _ _ => []

/-- The parts directly inside an arm. -/
def Arm.inner (a : Arm) : List Part := [.expr a.condition, .expr a.result]

/-- The parts directly inside an item of a `FROM` clause. -/
def Source.inner (s : Source) : List Part := .entity s.entity :: s.joins.map .join

/-- The parts directly inside an expression. -/
def Expr.inner : Expr → List Part
  | .literal _ | .parameter _ _ | .path _ | .entity _ | .isEmpty _ _ | .current _ => []
  | .aliased v _ | .negate v | .not v | .isNull v _ | .memberOf v _ _ | .unary _ v
  | .aggregate _ _ v => [.expr v]
  | .arithmetic _ l r | .comparison _ l r | .like l r _ _ | .nullIf l r => [.expr l, .expr r]
  | .choice operand arms otherwise =>
    operand.toList.map .expr ++ arms.flatMap Arm.inner ++ otherwise.toList.map .expr
  | .subquery q | .exists q _ => [.select q]
  | .logical _ es | .variadic _ es | .function _ es | .custom _ es => es.map .expr
  | .between v low high _ => [.expr v, .expr low, .expr high]
  | .inList v es _ => .expr v :: es.map .expr
  | .inSubquery v q _ => [.expr v, .select q]
  | .substring v start length => .expr v :: .expr start :: length.toList.map .expr

/-- The parts directly inside a part, in the order of writing. -/
def Part.inner : Part → List Part
  | .select q => q.items.map .expr ++ q.sources.flatMap Source.inner ++ q.filter.toList.map .expr
    ++ q.groupBy.map .expr ++ q.having.toList.map .expr ++ q.orderBy.map .sort
  | .update q => .entity q.entity :: q.assignments.map .assignment ++ q.filter.toList.map .expr
  | .delete q => .entity q.entity :: q.filter.toList.map .expr
  | .entity _ => []
  | .join j => j.target.inner ++ j.condition.toList.map .expr
  | .sort k => [.expr k.key]
  | .assignment a => [.expr a.value]
  | .expr e => e.inner

/-! ### Emissions that hand parts to a dialect -/

/-- Emissions behind others are reached unless one of the others fails. -/
theorem Draft.emitAll_append (d : Draft) (as bs : List Emission) :
    d.emitAll (as ++ bs) = match d.emitAll as with
      | (d₁, none) => d₁.emitAll bs
      | (d₁, some fault) => (d₁, some fault) := by
  induction as generalizing d with
  | nil => rfl
  | cons a as ih =>
    rw [List.cons_append, emitAll, emitAll]
    rcases d.emit a with ⟨d₁, _ | fault⟩
    · exact ih d₁
    · rfl

/-- `Delegated D ps es`: the emissions `es` are what the dialect `D` writes for the parts `ps`, in
this order, with others around them that never fail. -/
inductive Delegated (D : Dialect) : List Part → List Emission → Prop
  | nothing : Delegated D [] []
  | own {e : Emission} {es : List Emission} {ps : List Part} (h : ∀ b, e.fault? b = none)
    (hes : Delegated D ps es) : Delegated D ps (e :: es)
  | part (p : Part) {es : List Emission} {ps : List Part} (hes : Delegated D ps es) :
    Delegated D (p :: ps) (D.write p ++ es)

namespace Delegated

variable {D : Dialect} {as bs es : List Emission} {ps qs : List Part}

theorem append (has : Delegated D ps as) (hbs : Delegated D qs bs) :
    Delegated D (ps ++ qs) (as ++ bs) := by
  induction has with
  | nothing => exact hbs
  | own h _ ih => exact .own h ih
  | part p _ ih =>
    rw [List.append_assoc]
    exact .part p ih

/-- A part and nothing else. -/
theorem single (p : Part) : Delegated D [p] (D.write p) := by
  have h : Delegated D [p] (D.write p ++ []) := .part p .nothing
  rwa [List.append_nil] at h

theorem token {e : Emission} (h : ∀ b, e.fault? b = none) : Delegated D [] [e] :=
  .own h .nothing

/-- Further emissions that never fail. -/
theorem followed (hes : Delegated D ps es) (hbs : Delegated D [] bs) :
    Delegated D ps (es ++ bs) := by
  have h := hes.append hbs
  rwa [List.append_nil] at h

theorem keyword (w : String) : Delegated D [] (keyword w) :=
  .own (fun _ => rfl) (.own (fun _ => rfl) (.token fun _ => rfl))

/-- A keyword between two layouts. -/
theorem joined (w : String) (has : Delegated D ps as) (hbs : Delegated D qs bs) :
    Delegated D (ps ++ qs) (as ++ Emission.keyword w ++ bs) :=
  (has.followed (.keyword w)).append hbs

theorem parenthesized (hes : Delegated D ps es) : Delegated D ps (parenthesized es) :=
  .own (fun _ => rfl) (hes.followed (.token fun _ => rfl))

theorem operand {parent child : Strength} {side : Side} (hes : Delegated D ps es) :
    Delegated D ps (operand parent side child es) := by
  unfold Emission.operand
  split
  · exact hes.parenthesized
  · exact hes

/-- Items one after the other. -/
theorem flatMap {α : Type} {layout : α → List Emission} {inner : α → List Part}
    (h : ∀ a, Delegated D (inner a) (layout a)) (items : List α) :
    Delegated D (items.flatMap inner) (items.flatMap layout) := by
  induction items with
  | nil => exact .nothing
  | cons a items ih => exact (h a).append ih

/-- Items with a word between them. -/
theorem separated (w : String) {α : Type} {layout : α → List Emission} {inner : α → List Part}
    (h : ∀ a, Delegated D (inner a) (layout a)) (items : List α) :
    Delegated D (items.flatMap inner) (separated w (items.map layout)) := by
  cases items with
  | nil => exact .nothing
  | cons a items =>
    have hrest : ∀ b, Delegated D (inner b) (.word w :: layout b) := fun b =>
      .own (fun _ => rfl) (h b)
    rw [List.map_cons, Emission.separated_cons, List.flatMap_map]
    exact (h a).append (.flatMap hrest items)

/-- Parts that are items themselves. -/
theorem list (w : String) {α : Type} (part : α → Part) (items : List α) :
    Delegated D (items.map part) (Emission.separated w (items.map fun a => D.write (part a))) := by
  rw [List.map_eq_flatMap]
  exact separated w (fun a => single (part a)) items

/-- A list behind a keyword, which is left out with an empty list. -/
theorem clause (w : String) {α : Type} (part : α → Part) (items : List α)
    (has : Delegated D ps as) :
    Delegated D (ps ++ items.map part) (as ++ if items.isEmpty then [] else
      Emission.keyword w ++ Emission.separated ", " (items.map fun a => D.write (part a))) := by
  cases items with
  | nil => simpa using has
  | cons a items => simpa using has.joined w (.list ", " part (a :: items))

/-- A word that is written or left out. -/
theorem flag (w : String) (b : Bool) : Delegated D [] (if b then [.word w, .space] else []) := by
  cases b with
  | false => exact .nothing
  | true => exact .own (fun _ => rfl) (.token fun _ => rfl)

/-- An optional expression behind what leads to it. -/
theorem option {lead : List Emission} (hlead : Delegated D [] lead) (o : Option Expr) :
    Delegated D (o.toList.map .expr) (layoutOfOption D o lead) := by
  cases o with
  | none => exact .nothing
  | some e => exact hlead.append (.single (.expr e))

/-- What fails is one of the parts handed to the dialect, behind emissions that do not fail. -/
theorem exists_failing (hes : Delegated D ps es) {d d' : Draft} {fault : Fault}
    (h : d.emitAll es = (d', some fault)) :
    ∃ p ∈ ps, ∃ before after d₁, es = before ++ D.write p ++ after
      ∧ d.emitAll before = (d₁, none) ∧ d₁.emitAll (D.write p) = (d', some fault) := by
  induction hes generalizing d with
  | nothing => cases h
  | @own e es ps he _ ih =>
    have hnone : (d.emit e).2 = none := (d.snd_emit e).trans (he d.binder)
    obtain ⟨d₂, hd₂⟩ : ∃ d₂, d.emit e = (d₂, none) := ⟨_, Prod.ext rfl hnone⟩
    rw [Draft.emitAll, hd₂] at h
    obtain ⟨p, hp, before, after, d₁, rfl, hbefore, hfail⟩ := ih h
    exact ⟨p, hp, e :: before, after, d₁, rfl, Draft.emitAll_cons_eq_none.2 ⟨d₂, hd₂, hbefore⟩,
      hfail⟩
  | @part p es ps _ ih =>
    rw [Draft.emitAll_append] at h
    rcases hw : d.emitAll (D.write p) with ⟨d₂, _ | f⟩
    · -- the part is written, and what fails comes behind it
      rw [hw] at h
      obtain ⟨q, hq, before, after, d₁, rfl, hbefore, hfail⟩ := ih h
      refine ⟨q, List.mem_cons_of_mem _ hq, D.write p ++ before, after, d₁, ?_, ?_, hfail⟩
      · simp
      · exact Draft.emitAll_append_eq_none.2 ⟨d₂, hw, hbefore⟩
    · rw [hw] at h
      cases h
      exact ⟨p, List.mem_cons_self, [], es, d, by simp, rfl, hw⟩

end Delegated

/-! ### Layouts -/

section
variable {D : Dialect}

theorem Dialect.delegated_operand (parent : Strength) (side : Side) (e : Expr) :
    Delegated D [.expr e] (operand parent side e.strength (D.write (.expr e))) :=
  (Delegated.single (.expr e)).operand

theorem delegated_layoutOfOperands (op : LogicalOp) (es : List Expr) :
    Delegated D (es.map .expr) (layoutOfOperands D op es) := by
  cases es with
  | nil => exact .token fun _ => rfl
  | cons e es =>
    cases es with
    | nil => exact .single (.expr e)
    | cons f es =>
      rw [layoutOfOperands, layoutsOfOperands_eq_map, List.map_eq_flatMap]
      exact .separated _ (D.delegated_operand op.strength .chained) (e :: f :: es)

theorem delegated_layoutOfArms (arms : List Arm) :
    Delegated D (arms.flatMap Arm.inner) (layoutOfArms D arms) := by
  rw [layoutOfArms_eq_flatMap]
  refine .flatMap (fun a => ?_) arms
  have hcondition := (Delegated.keyword (D := D) "WHEN").append (.single (.expr a.condition))
  exact hcondition.joined "THEN" (.single (.expr a.result))

theorem delegated_layoutsOfSources (sources : List Source) :
    Delegated D (sources.flatMap Source.inner) (separated ", " (layoutsOfSources D sources)) := by
  rw [layoutsOfSources_eq_map]
  refine .separated ", " (fun s => ?_) sources
  have hjoins : Delegated D (s.joins.map .join) (layoutOfJoins D s.joins) := by
    rw [layoutOfJoins_eq_flatMap, List.map_eq_flatMap]
    exact .flatMap (fun j => .own (fun _ => rfl) (.single (.join j))) s.joins
  exact (Delegated.single (.entity s.entity)).append hjoins

theorem Entity.delegated_layout (e : Entity) : Delegated D [] e.layout :=
  .own (fun _ => rfl) ((Delegated.keyword "AS").followed (.token fun _ => rfl))

theorem JoinTarget.delegated_layout (t : JoinTarget) : Delegated D t.inner (t.layout D) := by
  cases t with
  | entity e => exact .single (.entity e)
  | association path label =>
    exact .own (fun _ => rfl) ((Delegated.keyword "AS").followed (.token fun _ => rfl))

/-- A call: its keyword, and its arguments between parentheses. -/
theorem Delegated.call (w : String) (es : List Expr) :
    Delegated D (es.map .expr) (call w (layoutsOfList D es)) := by
  rw [layoutsOfList_eq_map]
  exact .own (fun _ => rfl) (Delegated.list ", " .expr es).parenthesized

/-- The layout of a part hands the parts inside it to the dialect, unless the part is a literal, a
parameter or a test for no members. -/
theorem Expr.delegated_layout (e : Expr) (w : String) (hliteral : ∀ v, e ≠ .literal v)
    (hparameter : ∀ name v, e ≠ .parameter name v)
    (hmembers : ∀ v negated, e ≠ .inList v [] negated) :
    Delegated D e.inner (e.layout D w) := by
  cases e with
  | literal v => exact absurd rfl (hliteral v)
  | parameter name v => exact absurd rfl (hparameter name v)
  | path p => exact .token fun _ => rfl
  | entity e => exact .token fun _ => rfl
  | aliased v label =>
    exact ((D.delegated_operand .aliased .left v).followed (.keyword "AS")).followed
      (.token fun _ => rfl)
  | arithmetic op l r =>
    exact (D.delegated_operand op.strength .left l).joined op.symbol
      (D.delegated_operand op.strength (op.rightSide r) r)
  | negate v =>
    refine .own (fun _ => rfl) ?_
    split
    · exact (Delegated.single (.expr v)).parenthesized
    · exact D.delegated_operand .unary .strict v
  | choice operand arms otherwise =>
    have hoperand := Delegated.option (D := D) (.token (e := .space) fun _ => rfl) operand
    have hotherwise := Delegated.option (D := D) (.keyword "ELSE") otherwise
    exact .own (fun _ => rfl)
      (((hoperand.append (delegated_layoutOfArms arms)).append hotherwise).followed
        (.keyword "END"))
  | subquery q => exact (Delegated.single (.select q)).parenthesized
  | comparison op l r =>
    exact (D.delegated_operand .predicate .strict l).joined op.symbol
      (D.delegated_operand .predicate .strict r)
  | logical op es => exact delegated_layoutOfOperands op es
  | not v =>
    exact .own (fun _ => rfl) (.own (fun _ => rfl) (D.delegated_operand .not .left v))
  | like v p escape negated =>
    have h := (D.delegated_operand .predicate .strict v).joined (negatable negated "LIKE")
      (D.delegated_operand .predicate .strict p)
    refine h.followed ?_
    cases escape with
    | none => exact .nothing
    | some c => exact (Delegated.keyword "ESCAPE").followed (.token fun _ => rfl)
  | between v low high negated =>
    exact ((D.delegated_operand .predicate .strict v).joined (negatable negated "BETWEEN")
      (D.delegated_operand .predicate .strict low)).joined "AND"
        (D.delegated_operand .predicate .strict high)
  | inList v es negated =>
    cases es with
    | nil => exact absurd rfl (hmembers v negated)
    | cons m ms =>
      have hmembers : Delegated D ((m :: ms).map .expr)
          (Emission.separated ", " (layoutsOfList D (m :: ms))) := by
        rw [layoutsOfList_eq_map]
        exact .list ", " .expr (m :: ms)
      exact (D.delegated_operand .predicate .strict v).joined (negatable negated "IN")
        hmembers.parenthesized
  | inSubquery v q negated =>
    exact (D.delegated_operand .predicate .strict v).joined (negatable negated "IN")
      (Delegated.single (.select q)).parenthesized
  | isNull v negated => exact (D.delegated_operand .predicate .strict v).followed (.keyword _)
  | isEmpty p negated => exact .own (fun _ => rfl) (.keyword _)
  | memberOf v p negated =>
    exact ((D.delegated_operand .predicate .strict v).followed (.keyword _)).followed
      (.token fun _ => rfl)
  | «exists» q negated =>
    exact .own (fun _ => rfl) (.own (fun _ => rfl) (Delegated.single (.select q)).parenthesized)
  | unary f v => exact .call w [v]
  | current m => exact .call w []
  | variadic f es => exact .call w es
  | substring v start length =>
    cases length with
    | none => exact .call w [v, start]
    | some l => exact .call w [v, start, l]
  | nullIf l r => exact .call w [l, r]
  | aggregate f distinct v =>
    exact .own (fun _ => rfl)
      ((Delegated.flag "DISTINCT" distinct).append (.single (.expr v))).parenthesized
  | function name es =>
    have hitems : Delegated D (es.map .expr)
        (([.quoted name] :: layoutsOfList D es).tail.flatMap (.word ", " :: ·)) := by
      rw [layoutsOfList_eq_map, List.tail_cons, List.flatMap_map, List.map_eq_flatMap]
      exact .flatMap (fun e => .own (fun _ => rfl) (.single (.expr e))) es
    exact .own (fun _ => rfl) (Delegated.own (fun _ => rfl) hitems).parenthesized
  | custom kind es => exact .call w es

theorem Select.delegated_layout (q : Select) : Delegated D (Part.select q).inner (q.layout D) := by
  obtain ⟨resultType, distinct, items, sources, filter, groupBy, having, orderBy⟩ := q
  have hitems : Delegated D (items.map .expr) (separated ", " (layoutsOfList D items)) := by
    rw [layoutsOfList_eq_map]
    exact .list ", " .expr items
  have hselected : Delegated D (items.map .expr) (.word "SELECT" :: .space
      :: (if distinct then [.word "DISTINCT", .space] else [])
      ++ separated ", " (layoutsOfList D items)) :=
    .own (fun _ => rfl) (.own (fun _ => rfl) ((Delegated.flag "DISTINCT" distinct).append hitems))
  have hfrom := hselected.joined "FROM" (delegated_layoutsOfSources sources)
  have hfilter := hfrom.append (.option (.keyword "WHERE") filter)
  have hgroups := hfilter.clause "GROUP BY" .expr groupBy
  have hhaving := hgroups.append (.option (.keyword "HAVING") having)
  have hkeys := hhaving.clause "ORDER BY" .sort orderBy
  rw [Select.layout, layoutsOfList_eq_map D groupBy, layoutsOfKeys_eq_map]
  exact hkeys

theorem Update.delegated_layout (q : Update) : Delegated D (Part.update q).inner (q.layout D) := by
  have hentity : Delegated D [.entity q.entity] (.word "UPDATE" :: .space
      :: D.write (.entity q.entity)) :=
    .own (fun _ => rfl) (.own (fun _ => rfl) (.single _))
  have hset := hentity.joined "SET" (.list ", " .assignment q.assignments)
  exact hset.append (.option (.keyword "WHERE") q.filter)

theorem Delete.delegated_layout (q : Delete) : Delegated D (Part.delete q).inner (q.layout D) := by
  have hentity : Delegated D [.entity q.entity] (.word "DELETE FROM" :: .space
      :: D.write (.entity q.entity)) :=
    .own (fun _ => rfl) (.own (fun _ => rfl) (.single _))
  exact hentity.append (.option (.keyword "WHERE") q.filter)

theorem Join.delegated_layout (j : Join) : Delegated D (Part.join j).inner (j.layout D) := by
  obtain ⟨kind, fetch, target, condition⟩ := j
  have htarget : Delegated D target.inner (.word kind.keyword :: .space
      :: (if fetch then [.word "FETCH", .space] else []) ++ target.layout D) :=
    .own (fun _ => rfl) (.own (fun _ => rfl) ((Delegated.flag "FETCH" fetch).append
      target.delegated_layout))
  exact htarget.append (.option (.keyword "ON") condition)

theorem SortKey.delegated_layout (k : SortKey) : Delegated D [.expr k.key] (k.layout D) := by
  obtain ⟨key, order, nulls⟩ := k
  have hkey : Delegated D [.expr key] (D.write (.expr key) ++ [.space, .word order.keyword]) :=
    (Delegated.single _).followed (.own (fun _ => rfl) (.token fun _ => rfl))
  refine hkey.followed ?_
  cases nulls with
  | none => exact .nothing
  | some n => exact .own (fun _ => rfl) (.token fun _ => rfl)

theorem Assignment.delegated_layout (a : Assignment) :
    Delegated D [.expr a.value] (a.layout D) :=
  .own (fun _ => rfl) ((Delegated.keyword "=").append (.single (.expr a.value)))

/-- The layout of a part hands the parts inside it to the dialect, with the same exceptions. -/
theorem Part.delegated_layout (p : Part) (w : String) (hliteral : ∀ v, p ≠ .expr (.literal v))
    (hparameter : ∀ name v, p ≠ .expr (.parameter name v))
    (hmembers : ∀ v negated, p ≠ .expr (.inList v [] negated)) :
    Delegated D p.inner (p.layout D w) := by
  cases p with
  | select q => exact q.delegated_layout
  | update q => exact q.delegated_layout
  | delete q => exact q.delegated_layout
  | entity e => exact e.delegated_layout
  | join j => exact j.delegated_layout
  | sort k => exact k.delegated_layout
  | assignment a => exact a.delegated_layout
  | expr e =>
    exact e.delegated_layout w (fun v h => hliteral v (congrArg _ h))
      (fun name v h => hparameter name v (congrArg _ h))
      (fun v negated h => hmembers v negated (congrArg _ h))

end

end PersistenceQuery
