import PersistenceQuery.Proofs.Query.Tour
import PersistenceQuery.Rendering.Rendered

/-!
# Two dialects side by side

A layout asks the dialect for the rules of the parts of its query and for nothing else.  Two
dialects whose rules for these parts have the same forms write the query alike, emission by
emission; only the keywords in front of calls may differ, and where the rules are the same nothing
does.

## Main definitions

* `Dialect.form?`, `Dialect.Matches` — the form of a rule, and dialects whose rules for the parts of
  a tour have the same forms.
* `Counterpart` — what two dialects write for the same expressions.

## Main results

* `Query.counterpart` — what two dialects write for a query, if they match on its tour.
* `Query.render_dialect` — a rendering depends on the rules for the kinds of its parts only.
-/

namespace PersistenceQuery

open Emission (keyword parenthesized separated operand call)

/-- The form of the rule that is kept under a kind. -/
def Dialect.form? (D : Dialect) (kind : String) : Option Form := (D.rule? kind).map Rule.form

/-- The kind of an expression that is written as a call. -/
def Expr.callKind? (e : Expr) : Option String :=
  match e.form with
  | .construct _ => none
  | .call kind => some kind

theorem Expr.form_of_callKind? {e : Expr} {kind : String} (h : e.callKind? = some kind) :
    e.form = .call kind := by
  unfold Expr.callKind? at h
  split at h
  · cases h
  · next heq =>
    cases h
    exact heq

/-! ### What two dialects write -/

/-- `Counterpart D E as bs ns`: the emissions `as` of the dialect `D` and `bs` of `E` write the
expressions `ns`, and are the same but for the keywords of those of them that are calls. -/
inductive Counterpart (D E : Dialect) : List Emission → List Emission → List Expr → Prop
  | nothing : Counterpart D E [] [] []
  | same (e : Emission) : Counterpart D E [e] [e] []
  /-- Where nothing more is written, the expressions that follow do not matter. -/
  | stop (fault : Fault) (ns : List Expr) : Counterpart D E [.stop fault] [.stop fault] ns
  /-- An expression that is no call counts before what is written for it. -/
  | construct {e : Expr} (h : e.callKind? = none) : Counterpart D E [] [] [e]
  /-- A call opens with the keywords of the two rules. -/
  | keyword {e : Expr} {kind w w' : String} (h : e.callKind? = some kind)
    (hD : D.rule? kind = some (.call kind w)) (hE : E.rule? kind = some (.call kind w')) :
    Counterpart D E [.word w, .opening] [.word w', .opening] [e]
  | append {as as' bs bs' : List Emission} {ms ns : List Expr} (ha : Counterpart D E as as' ms)
    (hb : Counterpart D E bs bs' ns) : Counterpart D E (as ++ bs) (as' ++ bs') (ms ++ ns)

/-- Layouts of two dialects that each write some expressions, in order. -/
inductive CounterpartItems (D E : Dialect) :
    List (List Emission) → List (List Emission) → List Expr → Prop
  | nil : CounterpartItems D E [] [] []
  | cons {as as' : List Emission} {ls ls' : List (List Emission)} {ms ns : List Expr}
    (ha : Counterpart D E as as' ms) (hls : CounterpartItems D E ls ls' ns) :
    CounterpartItems D E (as :: ls) (as' :: ls') (ms ++ ns)

namespace Counterpart

variable {D E : Dialect} {as as' bs bs' : List Emission} {ms ns : List Expr}

theorem refl (es : List Emission) : Counterpart D E es es [] := by
  induction es with
  | nil => exact .nothing
  | cons e es ih => exact (Counterpart.same e).append ih

/-- The same emissions in front. -/
theorem behind (es : List Emission) (ha : Counterpart D E as as' ms) :
    Counterpart D E (es ++ as) (es ++ as') ms :=
  (refl es).append ha

/-- The same emissions at the end. -/
theorem ending (ha : Counterpart D E as as' ms) (es : List Emission) :
    Counterpart D E (as ++ es) (as' ++ es) ms := by
  simpa using ha.append (refl es)

/-- The same emissions between two layouts. -/
theorem around (ha : Counterpart D E as as' ms) (es : List Emission)
    (hb : Counterpart D E bs bs' ns) :
    Counterpart D E (as ++ es ++ bs) (as' ++ es ++ bs') (ms ++ ns) :=
  (ha.ending es).append hb

theorem parenthesized (ha : Counterpart D E as as' ms) :
    Counterpart D E (parenthesized as) (parenthesized as') ms :=
  (ha.ending [.closing]).behind [.opening]

theorem operand {parent child : Strength} {side : Side} (ha : Counterpart D E as as' ms) :
    Counterpart D E (operand parent side child as) (operand parent side child as') ms := by
  unfold Emission.operand
  split
  · exact ha.parenthesized
  · exact ha

/-- Behind an expression further items follow, each behind a separator. -/
theorem items (w : String) {ls ls' : List (List Emission)} (ha : Counterpart D E as as' ms)
    (hls : CounterpartItems D E ls ls' ns) :
    Counterpart D E (as ++ ls.flatMap (.word w :: ·)) (as' ++ ls'.flatMap (.word w :: ·))
      (ms ++ ns) := by
  induction hls generalizing as as' ms with
  | nil => simpa using ha
  | cons hes _ ih => simpa [List.append_assoc] using ih (ha.around [.word w] hes)

theorem separated (w : String) {ls ls' : List (List Emission)}
    (hls : CounterpartItems D E ls ls' ns) :
    Counterpart D E (separated w ls) (separated w ls') ns := by
  cases hls with
  | nil => exact .nothing
  | cons hes hls => exact hes.items w hls

/-- A list behind a keyword, which is left out with an empty list. -/
theorem clause {α : Type} (w : String) (xs : List α) {ls ls' : List (List Emission)}
    (hempty : xs = [] → ns = []) (ha : Counterpart D E as as' ms)
    (hls : CounterpartItems D E ls ls' ns) :
    Counterpart D E
      (as ++ if xs.isEmpty then [] else Emission.keyword w ++ Emission.separated ", " ls)
      (as' ++ if xs.isEmpty then [] else Emission.keyword w ++ Emission.separated ", " ls')
      (ms ++ ns) := by
  cases xs with
  | nil => simpa [hempty rfl] using ha
  | cons x xs => simpa using ha.around (Emission.keyword w) (separated ", " hls)

/-- A part by the rules of two dialects: refused by both of them, or written in its layout with the
keywords of the rules. -/
theorem accept {p : Part} {layout layout' : String → List Emission}
    (hp : D.form? p.kind = E.form? p.kind)
    (h : ∀ r s : Rule, D.rule? p.kind = some r → E.rule? p.kind = some s → r.form = p.form →
      s.form = p.form → Counterpart D E (layout r.keyword) (layout' s.keyword) ns) :
    Counterpart D E (D.accept p layout) (E.accept p layout') ns := by
  unfold Dialect.form? at hp
  unfold Dialect.accept
  cases hr : D.rule? p.kind with
  | none =>
    rw [hr, Option.map_none, eq_comm, Option.map_eq_none_iff] at hp
    rw [hp]
    exact .stop _ _
  | some r =>
    rw [hr, Option.map_some, eq_comm, Option.map_eq_some_iff] at hp
    obtain ⟨s, hs, hform⟩ := hp
    -- rules of one form fit the same parts, and refuse the others with the same fault
    have hkind : s.kind = r.kind := by rw [Rule.kind, Rule.kind, hform]
    simp only [hs, Rule.accept, Rule.fits, hform, hkind, beq_iff_eq]
    by_cases hfits : r.form = p.form
    · rw [if_pos hfits, if_pos hfits]
      exact h r s hr hs hfits (hform.trans hfits)
    · rw [if_neg hfits, if_neg hfits]
      exact .stop _ _

end Counterpart

/-! ### Dialects that match -/

/-- The rules of the two dialects for the parts of a tour have the same forms. -/
def Dialect.Matches (D E : Dialect) (vs : List Visit) : Prop :=
  ∀ p ∈ vs.filterMap Visit.entered?, D.form? p.kind = E.form? p.kind

section
variable {D E : Dialect}

theorem matches_append {vs us : List Visit} :
    D.Matches E (vs ++ us) ↔ D.Matches E vs ∧ D.Matches E us := by
  rw [Dialect.Matches, List.filterMap_append, List.forall_mem_append]
  exact Iff.rfl

theorem matches_around {p : Part} {inner : List Visit} :
    D.Matches E (around p inner) ↔ D.form? p.kind = E.form? p.kind ∧ D.Matches E inner := by
  have hentered : (around p inner).filterMap Visit.entered?
      = p :: inner.filterMap Visit.entered? := by simp [around, Visit.entered?]
  rw [Dialect.Matches, hentered, List.forall_mem_cons]
  exact Iff.rfl

/-- An expression that is no call is written alike if what is inside it is. -/
theorem Expr.counterpart_construct {e : Expr} {ns : List Expr} (he : e.callKind? = none)
    (hp : D.form? e.kind = E.form? e.kind)
    (h : ∀ w, Counterpart D E (e.layout D w) (e.layout E w) ns) :
    Counterpart D E (D.write (.expr e)) (E.write (.expr e)) (e :: ns) :=
  .accept hp fun r s _ _ hr hs => by
    -- the rule of a construct has no keyword
    have hkeyword : ∀ t : Rule, t.form = e.form → t.keyword = "" := by
      intro t ht
      cases t with
      | construct c => rfl
      | call kind w =>
        rw [Expr.callKind?, ← ht] at he
        cases he
    rw [hkeyword r hr, hkeyword s hs]
    exact (Counterpart.construct he).append (h "")

/-- A call is written alike, but for its keyword, if its arguments are. -/
theorem Expr.counterpart_call {e : Expr} {kind : String} {ns : List Expr}
    {ls ls' : List (List Emission)} (he : e.form = .call kind)
    (hp : D.form? e.kind = E.form? e.kind) (hD : ∀ w, e.layout D w = call w ls)
    (hE : ∀ w, e.layout E w = call w ls') (h : CounterpartItems D E ls ls' ns) :
    Counterpart D E (D.write (.expr e)) (E.write (.expr e)) (e :: ns) :=
  .accept hp fun r s hr hs hrform hsform => by
    have hkind : (Part.expr e).kind = kind := by rw [Part.kind, Part.form, he, Form.kind]
    have hrule : ∀ t : Rule, t.form = e.form → t = .call kind t.keyword := by
      intro t ht
      rw [he] at ht
      cases t with
      | construct c => cases ht
      | call k w =>
        obtain rfl := Form.call.inj ht
        rfl
    rw [hkind, hrule r hrform] at hr
    rw [hkind, hrule s hsform] at hs
    rw [Part.layout, Part.layout, hD, hE]
    have hword : e.callKind? = some kind := by rw [Expr.callKind?, he]
    exact (Counterpart.keyword hword hr hs).append
      ((Counterpart.separated ", " h).ending [.closing])

/-! ### Every part is written alike -/

theorem Entity.counterpart {e : Entity} (h : D.Matches E (stopover (.entity e))) :
    Counterpart D E (D.write (.entity e)) (E.write (.entity e)) [] :=
  .accept (matches_around.1 h).1 fun _ _ _ _ _ _ => .refl _

theorem JoinTarget.counterpart {t : JoinTarget} (h : D.Matches E t.tour) :
    Counterpart D E (t.layout D) (t.layout E) [] := by
  cases t with
  | entity e => exact Entity.counterpart h
  | association path label => exact .refl _

mutual

/-- An expression is written alike by dialects that match on its tour. -/
theorem Expr.counterpart : ∀ e : Expr, D.Matches E e.tour →
    Counterpart D E (D.write (.expr e)) (E.write (.expr e)) e.nodes
  | .literal _, h | .parameter _ _, h | .path _, h | .entity _, h | .isEmpty _ _, h =>
    Expr.counterpart_construct rfl (matches_around.1 h).1 fun _ => .refl _
  | .aliased v _, h => by
    obtain ⟨hp, hv⟩ := matches_around.1 h
    exact Expr.counterpart_construct rfl hp fun _ =>
      ((Expr.counterpart v hv).operand.ending _).ending _
  | .arithmetic _ l r, h | .comparison _ l r, h => by
    obtain ⟨hp, h⟩ := matches_around.1 h
    obtain ⟨hl, hr⟩ := matches_append.1 h
    exact Expr.counterpart_construct rfl hp fun _ =>
      (Expr.counterpart l hl).operand.around _ (Expr.counterpart r hr).operand
  | .negate v, h => by
    obtain ⟨hp, hv⟩ := matches_around.1 h
    have hv := Expr.counterpart v hv
    refine Expr.counterpart_construct rfl hp fun _ => ?_
    rw [Expr.layout, Expr.layout]
    split
    · exact hv.parenthesized.behind [.word "-"]
    · exact hv.operand.behind [.word "-"]
  | .choice subject arms otherwise, h => by
    obtain ⟨hp, h⟩ := matches_around.1 h
    obtain ⟨h, hotherwise⟩ := matches_append.1 h
    obtain ⟨hsubject, harms⟩ := matches_append.1 h
    have hcase := (Expr.counterpartOption subject hsubject [.space]).behind [.word "CASE"]
    exact Expr.counterpart_construct rfl hp fun _ =>
      ((hcase.append (Arm.counterpartList arms harms)).append
        (Expr.counterpartOption otherwise hotherwise (keyword "ELSE"))).ending (keyword "END")
  | .subquery q, h => by
    obtain ⟨hp, hq⟩ := matches_around.1 h
    exact Expr.counterpart_construct rfl hp fun _ => (Select.counterpart q hq).parenthesized
  | .logical _ [], h =>
    Expr.counterpart_construct rfl (matches_around.1 h).1 fun _ => .refl _
  | .logical op [e], h => by
    obtain ⟨hp, h⟩ := matches_around.1 h
    have he := Expr.counterpart e (matches_append.1 h).1
    exact Expr.counterpart_construct rfl hp fun _ => by
      simpa [Expr.layout, layoutOfOperands, nodesOfList] using he
  | .logical op (e :: f :: es), h => by
    obtain ⟨hp, h⟩ := matches_around.1 h
    exact Expr.counterpart_construct rfl hp fun _ =>
      .separated _ (Expr.counterpartOperands op (e :: f :: es) h)
  | .not e, h => by
    obtain ⟨hp, he⟩ := matches_around.1 h
    exact Expr.counterpart_construct rfl hp fun _ =>
      (Expr.counterpart e he).operand.behind [.word "NOT", .space]
  | .like v p escape negated, h => by
    obtain ⟨hp, h⟩ := matches_around.1 h
    obtain ⟨hv, hpattern⟩ := matches_append.1 h
    exact Expr.counterpart_construct rfl hp fun _ =>
      ((Expr.counterpart v hv).operand.around _ (Expr.counterpart p hpattern).operand).ending _
  | .between v low high negated, h => by
    obtain ⟨hp, h⟩ := matches_around.1 h
    obtain ⟨h, hhigh⟩ := matches_append.1 h
    obtain ⟨hv, hlow⟩ := matches_append.1 h
    exact Expr.counterpart_construct rfl hp fun _ =>
      ((Expr.counterpart v hv).operand.around _ (Expr.counterpart low hlow).operand).around _
        (Expr.counterpart high hhigh).operand
  | .inList v es negated, h => by
    obtain ⟨hp, h⟩ := matches_around.1 h
    obtain ⟨hv, hes⟩ := matches_append.1 h
    have hmembers := (Counterpart.separated ", " (Expr.counterpartList es hes)).parenthesized
    refine Expr.counterpart_construct rfl hp fun _ => ?_
    rw [Expr.layout, Expr.layout]
    split
    · exact .stop _ _
    · exact (Expr.counterpart v hv).operand.around _ hmembers
  | .inSubquery v q negated, h => by
    obtain ⟨hp, h⟩ := matches_around.1 h
    obtain ⟨hv, hq⟩ := matches_append.1 h
    exact Expr.counterpart_construct rfl hp fun _ =>
      (Expr.counterpart v hv).operand.around _ (Select.counterpart q hq).parenthesized
  | .isNull v _, h => by
    obtain ⟨hp, hv⟩ := matches_around.1 h
    exact Expr.counterpart_construct rfl hp fun _ => (Expr.counterpart v hv).operand.ending _
  | .memberOf v _ _, h => by
    obtain ⟨hp, hv⟩ := matches_around.1 h
    exact Expr.counterpart_construct rfl hp fun _ =>
      ((Expr.counterpart v hv).operand.ending _).ending _
  | .exists q negated, h => by
    obtain ⟨hp, hq⟩ := matches_around.1 h
    exact Expr.counterpart_construct rfl hp fun _ =>
      (Select.counterpart q hq).parenthesized.behind [.word (negatable negated "EXISTS"), .space]
  | .unary _ v, h => by
    obtain ⟨hp, hv⟩ := matches_around.1 h
    have harguments := CounterpartItems.cons (Expr.counterpart v hv) .nil
    exact Expr.counterpart_call rfl hp (fun _ => rfl) (fun _ => rfl) (by simpa using harguments)
  | .current _, h =>
    Expr.counterpart_call rfl (matches_around.1 h).1 (fun _ => rfl) (fun _ => rfl) .nil
  | .variadic _ es, h | .custom _ es, h => by
    obtain ⟨hp, hes⟩ := matches_around.1 h
    exact Expr.counterpart_call rfl hp (fun _ => rfl) (fun _ => rfl) (Expr.counterpartList es hes)
  | .substring v start length, h => by
    obtain ⟨hp, h⟩ := matches_around.1 h
    obtain ⟨h, hlength⟩ := matches_append.1 h
    obtain ⟨hv, hstart⟩ := matches_append.1 h
    have harguments := CounterpartItems.cons (Expr.counterpart v hv)
      (.cons (Expr.counterpart start hstart) (Expr.counterpartItem length hlength))
    exact Expr.counterpart_call rfl hp (fun _ => rfl) (fun _ => rfl)
      (by simpa [Expr.nodes] using harguments)
  | .nullIf l r, h => by
    obtain ⟨hp, h⟩ := matches_around.1 h
    obtain ⟨hl, hr⟩ := matches_append.1 h
    have harguments := CounterpartItems.cons (Expr.counterpart l hl)
      (.cons (Expr.counterpart r hr) .nil)
    exact Expr.counterpart_call rfl hp (fun _ => rfl) (fun _ => rfl)
      (by simpa using harguments)
  | .aggregate f distinct v, h => by
    obtain ⟨hp, hv⟩ := matches_around.1 h
    exact Expr.counterpart_construct rfl hp fun _ =>
      ((Expr.counterpart v hv).behind _).parenthesized.behind [.word f.keyword]
  | .function name es, h => by
    obtain ⟨hp, hes⟩ := matches_around.1 h
    have harguments := CounterpartItems.cons (.refl [.quoted name]) (Expr.counterpartList es hes)
    exact Expr.counterpart_construct rfl hp fun _ =>
      (Counterpart.separated ", " harguments).parenthesized.behind [.word "FUNCTION"]

theorem Expr.counterpartOption : ∀ o : Option Expr, D.Matches E (tourOfOption o) →
    ∀ lead, Counterpart D E (layoutOfOption D o lead) (layoutOfOption E o lead) (nodesOfOption o)
  | none, _, _ => .nothing
  | some e, h, lead => (Expr.counterpart e h).behind lead

/-- An optional expression as an item of a list. -/
theorem Expr.counterpartItem : ∀ o : Option Expr, D.Matches E (tourOfOption o) →
    CounterpartItems D E (layoutsOfOption D o) (layoutsOfOption E o) (nodesOfOption o)
  | none, _ => .nil
  | some e, h => by
    simpa [layoutsOfOption, nodesOfOption] using CounterpartItems.cons (Expr.counterpart e h) .nil

theorem Expr.counterpartList : ∀ es : List Expr, D.Matches E (tourOfList es) →
    CounterpartItems D E (layoutsOfList D es) (layoutsOfList E es) (nodesOfList es)
  | [], _ => .nil
  | e :: es, h => by
    obtain ⟨he, hes⟩ := matches_append.1 h
    exact .cons (Expr.counterpart e he) (Expr.counterpartList es hes)

theorem Expr.counterpartOperands (op : LogicalOp) : ∀ es : List Expr,
    D.Matches E (tourOfList es) →
    CounterpartItems D E (layoutsOfOperands D op es) (layoutsOfOperands E op es) (nodesOfList es)
  | [], _ => .nil
  | e :: es, h => by
    obtain ⟨he, hes⟩ := matches_append.1 h
    exact .cons (Expr.counterpart e he).operand (Expr.counterpartOperands op es hes)

theorem Arm.counterpartList : ∀ arms : List Arm, D.Matches E (tourOfArms arms) →
    Counterpart D E (layoutOfArms D arms) (layoutOfArms E arms) (nodesOfArms arms)
  | [], _ => .nothing
  | ⟨condition, result⟩ :: arms, h => by
    obtain ⟨h, harms⟩ := matches_append.1 h
    obtain ⟨hcondition, hresult⟩ := matches_append.1 h
    have hwhen := (Expr.counterpart condition hcondition).behind (keyword "WHEN")
    exact (hwhen.around (keyword "THEN") (Expr.counterpart result hresult)).append
      (Arm.counterpartList arms harms)

/-- A selecting query is written alike, clause by clause. -/
theorem Select.counterpart : ∀ q : Select, D.Matches E q.tour →
    Counterpart D E (D.write (.select q)) (E.write (.select q)) q.nodes
  | ⟨_, distinct, items, sources, filter, groupBy, having, orderBy⟩, h => by
    obtain ⟨hp, h⟩ := matches_around.1 h
    obtain ⟨h, horder⟩ := matches_append.1 h
    obtain ⟨h, hhaving⟩ := matches_append.1 h
    obtain ⟨h, hgroup⟩ := matches_append.1 h
    obtain ⟨h, hfilter⟩ := matches_append.1 h
    obtain ⟨hitems, hsources⟩ := matches_append.1 h
    -- clause by clause, as far as the text has come
    have hselect := (Counterpart.separated ", " (Expr.counterpartList items hitems)).behind
      (.word "SELECT" :: .space :: if distinct then [.word "DISTINCT", .space] else [])
    have hfrom := hselect.around (keyword "FROM")
      (.separated ", " (Source.counterpartList sources hsources))
    have hwhere := hfrom.append (Expr.counterpartOption filter hfilter (keyword "WHERE"))
    have hgrouped := hwhere.clause "GROUP BY" groupBy (fun h => by rw [h, nodesOfList])
      (Expr.counterpartList groupBy hgroup)
    have hhad := hgrouped.append (Expr.counterpartOption having hhaving (keyword "HAVING"))
    exact .accept hp fun _ _ _ _ _ _ => hhad.clause "ORDER BY" orderBy
      (fun h => by rw [h, nodesOfKeys]) (SortKey.counterpartList orderBy horder)

theorem Source.counterpartList : ∀ sources : List Source, D.Matches E (tourOfSources sources) →
    CounterpartItems D E (layoutsOfSources D sources) (layoutsOfSources E sources)
      (nodesOfSources sources)
  | [], _ => .nil
  | ⟨entity, joins⟩ :: sources, h => by
    obtain ⟨h, hsources⟩ := matches_append.1 h
    obtain ⟨hentity, hjoins⟩ := matches_append.1 h
    have hsource := (Entity.counterpart hentity).append (Join.counterpartList joins hjoins)
    exact .cons hsource (Source.counterpartList sources hsources)

theorem Join.counterpartList : ∀ joins : List Join, D.Matches E (tourOfJoins joins) →
    Counterpart D E (layoutOfJoins D joins) (layoutOfJoins E joins) (nodesOfJoins joins)
  | [], _ => .nothing
  | ⟨kind, fetch, target, condition⟩ :: joins, h => by
    obtain ⟨h, hjoins⟩ := matches_append.1 h
    obtain ⟨hp, h⟩ := matches_around.1 h
    obtain ⟨htarget, hcondition⟩ := matches_append.1 h
    have hlead := (JoinTarget.counterpart htarget).behind
      (.word kind.keyword :: .space :: if fetch then [.word "FETCH", .space] else [])
    have hjoin : Counterpart D E (D.write (.join ⟨kind, fetch, target, condition⟩))
        (E.write (.join ⟨kind, fetch, target, condition⟩)) (nodesOfOption condition) :=
      .accept hp fun _ _ _ _ _ _ =>
        hlead.append (Expr.counterpartOption condition hcondition (keyword "ON"))
    exact (hjoin.behind [.space]).append (Join.counterpartList joins hjoins)

theorem SortKey.counterpartList : ∀ keys : List SortKey, D.Matches E (tourOfKeys keys) →
    CounterpartItems D E (layoutsOfKeys D keys) (layoutsOfKeys E keys) (nodesOfKeys keys)
  | [], _ => .nil
  | ⟨key, order, nulls⟩ :: keys, h => by
    obtain ⟨h, hkeys⟩ := matches_append.1 h
    obtain ⟨hp, hkey⟩ := matches_around.1 h
    have hsort : Counterpart D E (D.write (.sort ⟨key, order, nulls⟩))
        (E.write (.sort ⟨key, order, nulls⟩)) key.nodes :=
      .accept hp fun _ _ _ _ _ _ =>
        ((Expr.counterpart key hkey).ending [.space, .word order.keyword]).ending _
    exact .cons hsort (SortKey.counterpartList keys hkeys)

end

theorem Assignment.counterpartList : ∀ as : List Assignment,
    D.Matches E (as.flatMap Assignment.tour) →
    CounterpartItems D E (as.map fun a => D.write (.assignment a))
      (as.map fun a => E.write (.assignment a)) (as.flatMap fun a => a.value.nodes)
  | [], _ => .nil
  | ⟨path, value⟩ :: as, h => by
    obtain ⟨h, has⟩ := matches_append.1 h
    obtain ⟨hp, hvalue⟩ := matches_around.1 h
    have hset : Counterpart D E (D.write (.assignment ⟨path, value⟩))
        (E.write (.assignment ⟨path, value⟩)) value.nodes :=
      .accept hp fun _ _ _ _ _ _ =>
        (Expr.counterpart value hvalue).behind (.name path.text :: keyword "=")
    exact .cons hset (Assignment.counterpartList as has)

/-- A query is written alike by dialects that match on its tour. -/
theorem Query.counterpart {q : Query} (h : D.Matches E q.tour) :
    Counterpart D E (D.write q.part) (E.write q.part) q.nodes := by
  cases q with
  | select q => exact Select.counterpart q h
  | update q =>
    obtain ⟨hp, h⟩ := matches_around.1 h
    obtain ⟨h, hfilter⟩ := matches_append.1 h
    obtain ⟨hentity, hassignments⟩ := matches_append.1 h
    have hupdate := (Entity.counterpart hentity).behind [.word "UPDATE", .space]
    have hset := hupdate.around (keyword "SET")
      (.separated ", " (Assignment.counterpartList q.assignments hassignments))
    exact .accept hp fun _ _ _ _ _ _ =>
      hset.append (Expr.counterpartOption q.filter hfilter (keyword "WHERE"))
  | delete q =>
    obtain ⟨hp, h⟩ := matches_around.1 h
    obtain ⟨hentity, hfilter⟩ := matches_append.1 h
    have hdelete := (Entity.counterpart hentity).behind [.word "DELETE FROM", .space]
    exact .accept hp fun _ _ _ _ _ _ =>
      hdelete.append (Expr.counterpartOption q.filter hfilter (keyword "WHERE"))

end

/-! ### The same rules -/

/-- Where the calls have the same rules, the same is written. -/
theorem Counterpart.eq {D E : Dialect} {as bs : List Emission} {ns : List Expr}
    (h : Counterpart D E as bs ns)
    (hns : ∀ e ∈ ns, ∀ kind, e.callKind? = some kind → D.rule? kind = E.rule? kind) : as = bs := by
  induction h with
  | nothing | same e | stop fault ns | construct h => rfl
  | keyword h hD hE =>
    -- the one place where the two may differ
    have hrules := hns _ List.mem_cons_self _ h
    rw [hD, hE, Option.some.injEq] at hrules
    obtain ⟨-, rfl⟩ := Rule.call.inj hrules
    rfl
  | append _ _ iha ihb =>
    rw [List.forall_mem_append] at hns
    rw [iha hns.1, ihb hns.2]

/-- Two dialects with the same rules for the parts of a query write the same for it. -/
theorem Query.write_congr {D E : Dialect} {q : Query}
    (h : ∀ p ∈ q.parts, D.rule? p.kind = E.rule? p.kind) : D.write q.part = E.write q.part := by
  have hmatches : D.Matches E q.tour := fun p hp => congrArg (Option.map Rule.form) (h p hp)
  refine (Query.counterpart hmatches).eq fun e he kind hkind => ?_
  have hrules := h _ (Query.mem_parts_of_mem_nodes he)
  rwa [Part.kind, Part.form, Expr.form_of_callKind? hkind, Form.kind] at hrules

/-- What is rendered depends on the rules for the kinds of the parts of the query, and on no other
rules of the dialect: a kind that does not occur may have any rule, or none. -/
theorem Query.render_dialect (q : Query) (D : Dialect) (supplied : Option Bindings) (mode : Mode) :
    (∀ E : Dialect, (∀ p ∈ q.parts, D.rule? p.kind = E.rule? p.kind) →
        q.render D supplied mode = q.render E supplied mode)
      ∧ ∀ kind, (∀ p ∈ q.parts, p.kind ≠ kind) →
        (∀ r, q.render (D.register kind r) supplied mode = q.render D supplied mode)
          ∧ q.render (D.without kind) supplied mode = q.render D supplied mode := by
  have hrender : ∀ E : Dialect, (∀ p ∈ q.parts, D.rule? p.kind = E.rule? p.kind) →
      q.render D supplied mode = q.render E supplied mode := by
    intro E h
    rw [Query.render, Query.render, Query.write_congr h]
  refine ⟨hrender, fun kind hkind => ⟨fun r => ?_, ?_⟩⟩
  · refine (hrender _ fun p hp => ?_).symm
    rw [Dialect.rule?_register, if_neg (hkind p hp)]
  · refine (hrender _ fun p hp => ?_).symm
    rw [Dialect.rule?_without, if_neg (hkind p hp)]

/-- A call of a kind that is not built in, with a built-in call inside it. -/
def booksBySound : Query := .select {
  resultType := "Book"
  distinct := false
  items := [.entity ⟨"Book", "b"⟩]
  sources := [⟨⟨"Book", "b"⟩, []⟩]
  filter := some (.comparison .eq (.custom "soundex" [.unary .upper (.path ⟨["b", "title"]⟩)])
    (.parameter "sound" none))
  groupBy := []
  having := none
  orderBy := [] }

theorem render_booksBySound :
    let D := Dialect.standard.insert (.call "soundex" "SOUNDEX")
    let E := (D.register "lower" (.construct (.aggregate .max))).without "exists"
    let supplied := some (Bindings.ofList [("sound", .string "A500")])
    (∀ p ∈ booksBySound.parts, D.rule? p.kind = E.rule? p.kind)
      ∧ (∀ p ∈ booksBySound.parts, p.kind ≠ "lower")
      ∧ booksBySound.render D supplied .placeholder = booksBySound.render E supplied .placeholder
      ∧ booksBySound.render (D.register "lower" (.call "upper" "UCASE")) supplied .placeholder
        = booksBySound.render D supplied .placeholder := by
  intro D E supplied
  have hrules : ∀ p ∈ booksBySound.parts, D.rule? p.kind = E.rule? p.kind := by decide +kernel
  have hlower : ∀ p ∈ booksBySound.parts, p.kind ≠ "lower" := by decide +kernel
  obtain ⟨hdialects, hkinds⟩ := booksBySound.render_dialect D supplied .placeholder
  exact ⟨hrules, hlower, hdialects E hrules, (hkinds "lower" hlower).1 _⟩

end PersistenceQuery
