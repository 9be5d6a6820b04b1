import PersistenceQuery.Proofs.Query.Joins
import PersistenceQuery.Proofs.Rendering.Standard
import PersistenceQuery.Proofs.Text.Lexeme

/-!
# Where a layout writes joins

Nothing in a layout reads as `JOIN` but the keyword with which a join begins, and behind it the
join goes on with what it brings in and the label of that.  So the layout of a query is made of
such beginnings, one for each of its joins, and of other emissions.

## Main definitions

* `Emission.isJoining` — a word that reads as `JOIN`, alone or behind other words.
* `Join.lead` — what a join writes in front of its condition.
* `Laid` — emissions that are made of such beginnings and of others, along a tour.

## Main results

* `Query.laid` — the layout of a query, along its tour.
-/

namespace PersistenceQuery

open Emission (keyword parenthesized separated operand call)

/-- `JOIN` is one of the words that are read. -/
def Emission.isJoining : Emission → Bool
  | .word w => (lexemes w).contains (.word "JOIN")
  | _ => false

/-- What a join writes in front of its condition. -/
def Join.lead (j : Join) : List Emission :=
  .word j.kind.keyword :: .space :: (if j.fetch then [.word "FETCH", .space] else [])
    ++ .name j.target.text :: keyword "AS" ++ [.name j.target.label]

/-- `Laid es vs`: the emissions `es` are the beginnings of the joins that the visits `vs` enter,
in this order, with other emissions between them. -/
inductive Laid : List Emission → List Visit → Prop
  | nothing : Laid [] []
  | other {e : Emission} {es : List Emission} {vs : List Visit} (h : e.isJoining = false)
    (hes : Laid es vs) : Laid (e :: es) vs
  | visit {v : Visit} {es : List Emission} {vs : List Visit} (h : v.join? = none)
    (hes : Laid es vs) : Laid es (v :: vs)
  | join (j : Join) {es : List Emission} {vs : List Visit} (hes : Laid es vs) :
    Laid (j.lead ++ es) (.enter (.join j) :: vs)
  /-- Where nothing more is written, the visits that follow do not matter. -/
  | stop (fault : Fault) (es : List Emission) (vs : List Visit) : Laid (.stop fault :: es) vs

/-- Layouts that are laid one by one. -/
inductive LaidItems : List (List Emission) → List Visit → Prop
  | nil : LaidItems [] []
  | cons {es : List Emission} {ls : List (List Emission)} {vs us : List Visit} (hes : Laid es vs)
    (hls : LaidItems ls us) : LaidItems (es :: ls) (vs ++ us)

namespace Laid

variable {as bs es : List Emission} {vs us : List Visit}

theorem append (has : Laid as vs) (hbs : Laid bs us) : Laid (as ++ bs) (vs ++ us) := by
  induction has with
  | nothing => exact hbs
  | other h _ ih => exact .other h ih
  | visit h _ ih => exact .visit h ih
  | join j _ ih =>
    rw [List.append_assoc]
    exact .join j ih
  | stop fault es vs => exact .stop fault _ _

/-- Emissions in front that are no joins. -/
theorem behind (h : ∀ e ∈ as, e.isJoining = false) (hes : Laid es vs) : Laid (as ++ es) vs := by
  induction as with
  | nil => exact hes
  | cons a as ih =>
    obtain ⟨ha, has⟩ := List.forall_mem_cons.1 h
    exact .other ha (ih has)

theorem single {e : Emission} (h : e.isJoining = false) : Laid [e] [] := .other h .nothing

/-- Further emissions that are no joins. -/
theorem followed (hes : Laid es vs) (hbs : Laid bs []) : Laid (es ++ bs) vs := by
  have h := hes.append hbs
  rwa [List.append_nil] at h

/-- A part with the parts inside it. -/
theorem around {p : Part} (hp : (Visit.enter p).join? = none) (hes : Laid es vs) :
    Laid es (PersistenceQuery.around p vs) := by
  have hleave : Laid [] [.leave p] := .visit rfl .nothing
  have h := hes.append hleave
  rw [List.append_nil] at h
  exact .visit hp h

theorem keyword {w : String} (hw : (Emission.word w).isJoining = false) (has : Laid as vs)
    (hbs : Laid bs us) : Laid (as ++ keyword w ++ bs) (vs ++ us) := by
  have hlead : Laid (Emission.keyword w ++ bs) us := .other rfl (.other hw (.other rfl hbs))
  rw [List.append_assoc]
  exact has.append hlead

theorem ending {w : String} (hw : (Emission.word w).isJoining = false) (has : Laid as vs) :
    Laid (as ++ Emission.keyword w) vs :=
  has.followed (.other rfl (.other hw (.single rfl)))

theorem parenthesized (hes : Laid es vs) : Laid (parenthesized es) vs :=
  .other rfl (hes.followed (.single rfl))

theorem operand {parent child : Strength} {side : Side} (hes : Laid es vs) :
    Laid (operand parent side child es) vs := by
  unfold Emission.operand
  split
  · exact hes.parenthesized
  · exact hes

theorem separated {w : String} (hw : (Emission.word w).isJoining = false)
    {ls : List (List Emission)} (hls : LaidItems ls vs) : Laid (separated w ls) vs := by
  have hrest : ∀ {ls : List (List Emission)} {us : List Visit}, LaidItems ls us →
      Laid (ls.flatMap (.word w :: ·)) us := by
    intro ls us hls
    induction hls with
    | nil => exact .nothing
    | cons hes _ ih => exact .other hw (hes.append ih)
  cases hls with
  | nil => exact .nothing
  | cons hes hls => exact hes.append (hrest hls)

theorem call {w : String} (hw : (Emission.word w).isJoining = false) {ls : List (List Emission)}
    (hls : LaidItems ls vs) : Laid (call w ls) vs :=
  .other hw (separated rfl hls).parenthesized

/-- A list behind a keyword, which is left out with an empty list. -/
theorem clause {α : Type} {w : String} (hw : (Emission.word w).isJoining = false) (xs : List α)
    {ls : List (List Emission)} (hempty : xs = [] → us = []) (has : Laid as vs)
    (hls : LaidItems ls us) :
    Laid (as ++ if xs.isEmpty then [] else Emission.keyword w ++ Emission.separated ", " ls)
      (vs ++ us) := by
  cases xs with
  | nil =>
    rw [hempty rfl]
    exact has.append .nothing
  | cons x xs =>
    rw [List.isEmpty_cons, if_neg (by decide), ← List.append_assoc]
    exact has.keyword hw (separated rfl hls)

end Laid

/-! ### Parts that are written -/

/-- No call of the standard dialect reads as a join. -/
theorem Rule.isJoining_keyword {r : Rule} (h : r ∈ Rule.standard) :
    (Emission.word r.keyword).isJoining = false := by
  have hall : ∀ r ∈ Rule.standard, (Emission.word r.keyword).isJoining = false := by
    decide +kernel
  exact hall r h

/-- A part by the rule of the standard dialect: its layout, or nothing more. -/
theorem Laid.accept {p : Part} {layout : String → List Emission} {vs : List Visit}
    (h : ∀ w, (Emission.word w).isJoining = false → Laid (layout w) vs) :
    Laid (Dialect.standard.accept p layout) vs := by
  rw [Dialect.accept]
  cases hr : Dialect.standard.rule? p.kind with
  | none => exact .stop _ _ _
  | some r =>
    simp only [Rule.accept]
    split
    · exact h _ (Rule.isJoining_keyword (Dialect.rule?_ofRules hr).1)
    · exact .stop _ _ _

/-- An entity is written in its layout. -/
theorem Entity.write_standard (e : Entity) : Dialect.standard.write (.entity e) = e.layout :=
  Part.write_of_form rfl

theorem JoinTarget.layout_standard (t : JoinTarget) :
    t.layout .standard = .name t.text :: keyword "AS" ++ [.name t.label] := by
  cases t with
  | entity e => exact e.write_standard
  | association path label => rfl

theorem Join.layout_standard (j : Join) :
    j.layout .standard = j.lead ++ layoutOfOption .standard j.condition (keyword "ON") := by
  obtain ⟨kind, fetch, target, condition⟩ := j
  rw [Join.layout, JoinTarget.layout_standard, Join.lead]
  simp only [List.append_assoc]

theorem Entity.laid (e : Entity) :
    Laid (Dialect.standard.write (.entity e)) (stopover (.entity e)) :=
  .around rfl (.accept fun _ _ => .keyword rfl (.single rfl) (.single rfl))

/-! ### Every layout is laid along its tour -/

mutual

/-- The layout of an expression, along its tour. -/
theorem Expr.laid : ∀ e : Expr, Laid (Dialect.standard.write (.expr e)) e.tour
  | .literal _ | .parameter _ _ | .path _ | .entity _ =>
    .around rfl (.accept fun _ _ => .single rfl)
  | .aliased v _ =>
    .around rfl (.accept fun _ _ => by
      rw [← List.append_nil v.tour]
      exact v.laid.operand.keyword rfl (.single rfl))
  | .arithmetic op l r => .around rfl (.accept fun _ _ =>
    l.laid.operand.keyword (by cases op <;> decide) r.laid.operand)
  | .negate v => .around rfl (.accept fun _ _ => by
    refine .other rfl ?_
    split
    · exact v.laid.parenthesized
    · exact v.laid.operand)
  | .choice operand arms otherwise => .around rfl (.accept fun _ _ => by
    have hoperand : Laid (.word "CASE" :: layoutOfOption .standard operand [.space])
        (tourOfOption operand) :=
      .other rfl (Expr.laidOption operand _ (by decide))
    have helse : Laid (layoutOfOption .standard otherwise (keyword "ELSE"))
        (tourOfOption otherwise) := Expr.laidOption otherwise _ (by decide)
    exact ((hoperand.append (Arm.laidList arms)).append helse).ending rfl)
  | .subquery q => .around rfl (.accept fun _ _ => q.laid.parenthesized)
  | .comparison op l r => .around rfl (.accept fun _ _ =>
    l.laid.operand.keyword (by cases op <;> decide) r.laid.operand)
  | .logical op [] => .around rfl (.accept fun _ _ => .single (by cases op <;> decide))
  | .logical op [e] => .around rfl (.accept fun _ _ => by
    rw [tourOfList, tourOfList, List.append_nil]
    exact e.laid)
  | .logical op (e :: f :: es) => .around rfl (.accept fun _ _ =>
    .separated (by cases op <;> decide) (Expr.laidOperands op (e :: f :: es)))
  | .not e => .around rfl (.accept fun _ _ => .other rfl (.other rfl e.laid.operand))
  | .like v p escape negated => .around rfl (.accept fun _ _ => by
    have hvalue : Laid (operand .predicate .strict v.strength (Dialect.standard.write (.expr v)))
        v.tour := v.laid.operand
    have hpattern : Laid (operand .predicate .strict p.strength (Dialect.standard.write (.expr p)))
        p.tour := p.laid.operand
    have hlike := hvalue.keyword (w := negatable negated "LIKE") (by cases negated <;> decide)
      hpattern
    cases escape with
    | none => exact hlike.followed .nothing
    | some c => exact hlike.followed (.keyword rfl .nothing (.single rfl)))
  | .between v low high negated => .around rfl (.accept fun _ _ =>
    (v.laid.operand.keyword (by cases negated <;> decide) low.laid.operand).keyword rfl
      high.laid.operand)
  | .inList v es negated => .around rfl (.accept fun _ _ => by
    rw [Part.layout, Expr.layout]
    split
    · exact .stop _ _ _
    · exact v.laid.operand.keyword (by cases negated <;> decide)
        (Laid.separated rfl (Expr.laidList es)).parenthesized)
  | .inSubquery v q negated => .around rfl (.accept fun _ _ =>
    v.laid.operand.keyword (by cases negated <;> decide) q.laid.parenthesized)
  | .isNull v negated => .around rfl (.accept fun _ _ =>
    v.laid.operand.ending (by cases negated <;> decide))
  | .isEmpty _ negated => .around rfl (.accept fun _ _ =>
    Laid.ending (by cases negated <;> decide) (.single rfl))
  | .memberOf v _ negated => .around rfl (.accept fun _ _ => by
    rw [← List.append_nil v.tour]
    exact v.laid.operand.keyword (by cases negated <;> decide) (.single rfl))
  | .exists q negated => .around rfl (.accept fun _ _ =>
    .other (by cases negated <;> decide) (.other rfl q.laid.parenthesized))
  | .unary _ v => .around rfl (.accept fun _ hw => by
    rw [← List.append_nil v.tour]
    exact .call hw (.cons v.laid .nil))
  | .current _ => .around rfl (.accept fun _ hw => .call hw .nil)
  | .variadic _ es => .around rfl (.accept fun _ hw => .call hw (Expr.laidList es))
  | .substring v start length => .around rfl (.accept fun _ hw => by
    rw [List.append_assoc]
    exact .call hw (.cons v.laid (.cons start.laid (Expr.laidItems length))))
  | .nullIf l r => .around rfl (.accept fun _ hw => by
    rw [← List.append_nil r.tour]
    exact .call hw (.cons l.laid (.cons r.laid .nil)))
  | .aggregate f distinct v => .around rfl (.accept fun _ _ => by
    refine .other (by cases f <;> decide) (Laid.parenthesized ?_)
    cases distinct with
    | false => exact v.laid
    | true => exact .other rfl (.other rfl v.laid))
  | .function name es => .around rfl (.accept fun _ _ => by
    have hname : Laid [.quoted name] [] := .single rfl
    exact .call rfl (.cons hname (Expr.laidList es)))
  | .custom _ es => .around rfl (.accept fun _ hw => .call hw (Expr.laidList es))

/-- An optional expression behind what is no join. -/
theorem Expr.laidOption : ∀ (o : Option Expr) (lead : List Emission),
    (∀ e ∈ lead, e.isJoining = false) → Laid (layoutOfOption .standard o lead) (tourOfOption o)
  | none, _, _ => .nothing
  | some e, _, h => e.laid.behind h

theorem Expr.laidItems : ∀ o : Option Expr,
    LaidItems (layoutsOfOption .standard o) (tourOfOption o)
  | none => .nil
  | some e => by
    rw [tourOfOption, ← List.append_nil e.tour]
    exact .cons e.laid .nil

theorem Expr.laidList : ∀ es : List Expr, LaidItems (layoutsOfList .standard es) (tourOfList es)
  | [] => .nil
  | e :: es => .cons e.laid (Expr.laidList es)

theorem Expr.laidOperands (op : LogicalOp) : ∀ es : List Expr,
    LaidItems (layoutsOfOperands .standard op es) (tourOfList es)
  | [] => .nil
  | e :: es => .cons e.laid.operand (Expr.laidOperands op es)

theorem Arm.laidList : ∀ arms : List Arm, Laid (layoutOfArms .standard arms) (tourOfArms arms)
  | [] => .nothing
  | ⟨condition, result⟩ :: arms =>
    ((Laid.nothing.keyword rfl condition.laid).keyword rfl result.laid).append (Arm.laidList arms)

/-- The layout of a selecting query, clause by clause. -/
theorem Select.laid : ∀ q : Select, Laid (Dialect.standard.write (.select q)) q.tour
  | ⟨_, distinct, items, sources, filter, groupBy, having, orderBy⟩ =>
    .around rfl (.accept fun _ _ => by
      have hitems := Laid.separated (w := ", ") rfl (Expr.laidList items)
      have hselect : Laid (.word "SELECT" :: .space :: (if distinct then
          [.word "DISTINCT", .space] else []) ++ separated ", " (layoutsOfList .standard items))
          (tourOfList items) := by
        cases distinct with
        | false => exact .other rfl (.other rfl hitems)
        | true => exact .other rfl (.other rfl (.other rfl (.other rfl hitems)))
      have hfrom := hselect.keyword (w := "FROM") rfl
        (Laid.separated (w := ", ") rfl (Source.laidList sources))
      have hwhere := hfrom.append (Expr.laidOption filter (keyword "WHERE") (by decide))
      have hgrouped := hwhere.clause (w := "GROUP BY") rfl groupBy
        (fun h => by rw [h, tourOfList]) (Expr.laidList groupBy)
      have hhad := hgrouped.append (Expr.laidOption having (keyword "HAVING") (by decide))
      exact hhad.clause rfl orderBy (fun h => by rw [h, tourOfKeys]) (SortKey.laidList orderBy))

theorem Source.laidList : ∀ sources : List Source,
    LaidItems (layoutsOfSources .standard sources) (tourOfSources sources)
  | [] => .nil
  | ⟨entity, joins⟩ :: sources =>
    .cons (entity.laid.append (Join.laidList joins)) (Source.laidList sources)

/-- A join begins with what it brings in, and only its condition may hold further joins. -/
theorem Join.laidList : ∀ joins : List Join,
    Laid (layoutOfJoins .standard joins) (tourOfJoins joins)
  | [] => .nothing
  | ⟨kind, fetch, target, condition⟩ :: joins => by
    have hcondition : Laid (layoutOfOption .standard condition (keyword "ON"))
        (tourOfOption condition) := Expr.laidOption condition _ (by decide)
    have htarget : Laid (layoutOfOption .standard condition (keyword "ON"))
        (target.tour ++ tourOfOption condition) := by
      cases target with
      | entity e => exact .visit rfl (.visit rfl hcondition)
      | association path label => exact hcondition
    have hjoin : Laid (Dialect.standard.write (.join ⟨kind, fetch, target, condition⟩))
        (around (.join ⟨kind, fetch, target, condition⟩) (target.tour ++ tourOfOption condition)) :=
      .accept fun w _ => by
        have hleave : Laid [] [.leave (.join ⟨kind, fetch, target, condition⟩)] :=
          .visit rfl .nothing
        have h := Laid.join ⟨kind, fetch, target, condition⟩ (htarget.append hleave)
        rw [List.append_nil] at h
        rw [Part.layout, Join.layout_standard]
        exact h
    exact .other rfl (hjoin.append (Join.laidList joins))

theorem SortKey.laidList : ∀ keys : List SortKey,
    LaidItems (layoutsOfKeys .standard keys) (tourOfKeys keys)
  | [] => .nil
  | ⟨key, order, nulls⟩ :: keys => by
    have horder : (Emission.word order.keyword).isJoining = false := by cases order <;> decide
    have hkey : Laid (Dialect.standard.write (.sort ⟨key, order, nulls⟩))
        (around (.sort ⟨key, order, nulls⟩) key.tour) :=
      .around rfl (.accept fun _ _ => by
        have h := key.laid.followed (.other (e := .space) rfl (.single horder))
        cases nulls with
        | none => exact h.followed .nothing
        | some n => exact h.followed (.other rfl (.single (by cases n <;> decide))))
    exact .cons hkey (SortKey.laidList keys)

end

/-! ### Queries -/

theorem Assignment.laid (a : Assignment) :
    Laid (Dialect.standard.write (.assignment a)) a.tour :=
  .around rfl (.accept fun _ _ => .keyword rfl (.single rfl) a.value.laid)

theorem Assignment.laidList : ∀ as : List Assignment,
    LaidItems (as.map fun a => Dialect.standard.write (.assignment a)) (as.flatMap Assignment.tour)
  | [] => .nil
  | a :: as => .cons a.laid (Assignment.laidList as)

/-- The layout of a query, along its tour. -/
theorem Query.laid (q : Query) : Laid (Dialect.standard.write q.part) q.tour := by
  cases q with
  | select q => exact q.laid
  | update q =>
    have hset : Laid (Dialect.standard.write (.update q)) q.tour := .around rfl (.accept fun _ _ =>
      have hupdate : Laid (.word "UPDATE" :: .space :: Dialect.standard.write (.entity q.entity))
          (stopover (.entity q.entity)) := .other rfl (.other rfl q.entity.laid)
      (hupdate.keyword rfl (.separated rfl (Assignment.laidList q.assignments))).append
        (Expr.laidOption q.filter _ (by decide)))
    exact hset
  | delete q =>
    have hdelete : Laid (Dialect.standard.write (.delete q)) q.tour := .around rfl (.accept
      fun _ _ => .other rfl (.other rfl (q.entity.laid.append
        (Expr.laidOption q.filter (keyword "WHERE") (by decide)))))
    exact hdelete

end PersistenceQuery
