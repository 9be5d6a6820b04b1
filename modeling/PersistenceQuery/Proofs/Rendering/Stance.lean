import PersistenceQuery.Proofs.Printing.Printed
import PersistenceQuery.Proofs.Query.Occurrence
import PersistenceQuery.Proofs.Rendering.Clear
import PersistenceQuery.Proofs.Text.Neat

/-!
# How emissions follow one another

What may be written next depends on what the text ends in: a separator stands behind a token only,
and between a separator and a closing parenthesis there has to be something.  What is written of a
query with proper names always keeps to that, and every part of it ends in a token.

## Main definitions

* `Stance` — what a text ends in while it is written.
* `Emission.stance?`, `stanceAfter?` — what it ends in behind emissions, if they may stand there.
* `Composes` — emissions that may stand behind anything and end in a token.

## Main results

* `Query.composes` — what is written of a query composes.
-/

namespace PersistenceQuery

open Emission (keyword parenthesized separated operand call)
open Text

/-! ### Stances -/

/-- What a text ends in while it is written. -/
inductive Stance
  /-- Nothing yet, or an opening parenthesis. -/
  | opened
  /-- The space of a separator. -/
  | parted
  /-- A token. -/
  | firm
  deriving DecidableEq

/-- A name that is not empty and has neither blanks nor delimiters nor quotes in it. -/
def IsCleanName (s : String) : Prop := IsProperName s ∧ '\'' ∉ s.toList

instance (s : String) : Decidable (IsCleanName s) :=
  inferInstanceAs (Decidable ((s ≠ "" ∧ isSolid s = true) ∧ _))

/-- What a text ends in behind an emission, if the emission may stand there: a separator behind a
token, a closing parenthesis behind anything but a separator, and a token everywhere. -/
def Emission.stance? (s : Stance) : Emission → Option Stance
  | .word w =>
    if isSeparator w then if s = .firm then some .parted else none
    else if NeatToken w.toList then some .firm else none
  | .name n => if NeatToken n.toList then some .firm else none
  | .quoted _ | .stop _ => some .firm
  | .space => some s
  | .opening => some .opened
  | .closing => if s = .parted then none else some .firm
  | .value v => if ∀ s ∈ v.names, IsCleanName s then some .firm else none
  | .parameter n _ => if isParameterName n then some .firm else none

/-- What a text ends in behind emissions, if each of them may stand where it does. -/
def stanceAfter? (s : Stance) : List Emission → Option Stance
  | [] => some s
  | e :: es => (e.stance? s).bind fun t => stanceAfter? t es

theorem stanceAfter?_append (s : Stance) (as bs : List Emission) :
    stanceAfter? s (as ++ bs) = (stanceAfter? s as).bind fun t => stanceAfter? t bs := by
  induction as generalizing s with
  | nil => rfl
  | cons a as ih =>
    rw [List.cons_append, stanceAfter?, stanceAfter?, Option.bind_assoc]
    exact congrArg _ (funext ih)

/-- The emissions may stand behind anything, and end in a token. -/
def Composes (es : List Emission) : Prop := ∀ s, stanceAfter? s es = some .firm

/-- The word is a token and no separator. -/
def IsNeatWord (w : String) : Prop := isSeparator w = false ∧ NeatToken w.toList

instance (w : String) : Decidable (IsNeatWord w) := inferInstanceAs (Decidable (_ ∧ _))

namespace Composes

variable {es as bs : List Emission} {ls : List (List Emission)} {w : String}

theorem single {e : Emission} (h : ∀ s, e.stance? s = some .firm) : Composes [e] := by
  intro s
  rw [stanceAfter?, h s]
  rfl

theorem word (hw : IsNeatWord w) : Composes [.word w] :=
  single fun s => by simp [Emission.stance?, hw.1, hw.2]

theorem name {n : String} (hn : NeatToken n.toList) : Composes [.name n] :=
  single fun s => by simp [Emission.stance?, hn]

theorem quoted (s : String) : Composes [.quoted s] := single fun _ => rfl

theorem stop (f : Fault) : Composes [.stop f] := single fun _ => rfl

theorem append (has : Composes as) (hbs : Composes bs) : Composes (as ++ bs) := by
  intro s
  rw [stanceAfter?_append, has s]
  exact hbs .firm

theorem spaced (has : Composes as) (hbs : Composes bs) : Composes (as ++ .space :: bs) := by
  intro s
  rw [stanceAfter?_append, has s]
  exact hbs .firm

/-- Behind a token a separator may stand, and behind it emissions that end in a token. -/
theorem parted (hw : isSeparator w = true) (has : Composes as) (hbs : Composes bs) :
    Composes (as ++ .word w :: bs) := by
  intro s
  rw [stanceAfter?_append, has s, Option.bind_some, stanceAfter?, Emission.stance?, if_pos hw]
  exact hbs .parted

theorem trailing (has : Composes as) : Composes (as ++ [.space]) := by
  intro s
  rw [stanceAfter?_append, has s]
  rfl

theorem adjoined (hw : IsNeatWord w) (hes : Composes es) : Composes (.word w :: es) :=
  (word hw).append hes

theorem lead (hw : IsNeatWord w) (hes : Composes es) : Composes (.word w :: .space :: es) :=
  (word hw).spaced hes

/-- A word with a space behind it, which may be left out. -/
theorem preceded (hw : IsNeatWord w) (present : Bool) (hes : Composes es) :
    Composes ((if present then [.word w, .space] else []) ++ es) := by
  cases present with
  | false => exact hes
  | true => exact hes.lead hw

theorem keyword (hw : IsNeatWord w) (has : Composes as) (hbs : Composes bs) :
    Composes (as ++ Emission.keyword w ++ bs) := by
  rw [List.append_assoc]
  exact has.spaced (hbs.lead hw)

/-- A keyword behind which nothing follows. -/
theorem ending (hw : IsNeatWord w) (has : Composes as) : Composes (as ++ Emission.keyword w) := by
  have h := (has.spaced (word hw)).trailing
  rwa [List.append_assoc] at h

/-- Between parentheses there may be nothing. -/
theorem parenthesized (hes : es = [] ∨ Composes es) : Composes (parenthesized es) := by
  intro s
  show stanceAfter? .opened (es ++ [.closing]) = some .firm
  rw [stanceAfter?_append]
  rcases hes with rfl | hes
  · rfl
  · rw [hes .opened]
    rfl

theorem operand (parent child : Strength) (side : Side) (hes : Composes es) :
    Composes (operand parent side child es) := by
  rw [Emission.operand]
  split
  · exact parenthesized (.inr hes)
  · exact hes

/-- Emissions with a separator between them. -/
theorem separated (hw : isSeparator w = true) (hls : ∀ l ∈ ls, Composes l) (hne : ls ≠ []) :
    Composes (separated w ls) := by
  induction ls with
  | nil => exact absurd rfl hne
  | cons l ls ih =>
    obtain ⟨hl, hls⟩ := List.forall_mem_cons.1 hls
    cases ls with
    | nil => simpa [Emission.separated_cons] using hl
    | cons m ls => simpa [Emission.separated_cons] using hl.parted hw (ih hls (by simp))

/-- A call may be without arguments. -/
theorem call (hw : IsNeatWord w) (hls : ∀ l ∈ ls, Composes l) : Composes (call w ls) := by
  refine (parenthesized ?_).adjoined hw
  by_cases hne : ls = []
  · exact .inl (by rw [hne]; rfl)
  · exact .inr (separated rfl hls hne)

/-- A list behind a keyword. -/
theorem keywordItems (hw : IsNeatWord w) (has : Composes as) (hls : ∀ l ∈ ls, Composes l)
    (hne : ls ≠ []) : Composes (as ++ Emission.keyword w ++ Emission.separated ", " ls) :=
  has.keyword hw (separated rfl hls hne)

/-- A list behind a keyword, which is left out with an empty list. -/
theorem clause {α : Type} (hw : IsNeatWord w) (xs : List α) (hne : xs ≠ [] → ls ≠ [])
    (has : Composes as) (hls : ∀ l ∈ ls, Composes l) :
    Composes (as ++
      if xs.isEmpty then [] else Emission.keyword w ++ Emission.separated ", " ls) := by
  cases xs with
  | nil => simpa using has
  | cons x xs => simpa using has.keywordItems hw hls (hne (List.cons_ne_nil x xs))

end Composes

/-! ### Names -/

theorem IsCleanName.all {s : String} (h : IsCleanName s) :
    s.toList.all (fun c => isSolidChar c && isNoQuote c) = true := by
  refine List.all_eq_true.2 fun c hc => ?_
  have hquote : c ≠ '\'' := fun heq => h.2 (heq ▸ hc)
  simp [List.all_eq_true.1 h.1.2 c hc, isNoQuote, hquote]

theorem IsCleanName.neatToken {s : String} (h : IsCleanName s) : NeatToken s.toList :=
  .of_clear (.of_notMem h.2 h.1.2) fun hnil => h.1.1 (String.toList_eq_nil_iff.1 hnil)

theorem neatToken_pathText {p : Path} (hne : p.segments ≠ [])
    (h : ∀ s ∈ p.segments, IsCleanName s) : NeatToken p.text.toList := by
  have hfirm := isFirm_pathText hne fun s hs => (h s hs).1
  have hclean : p.text.toList.all (fun c => isSolidChar c && isNoQuote c) = true :=
    all_pathText (by decide) fun s hs => (h s hs).all
  refine .of_clear (.of_spelled hclean) fun hnil => ?_
  rw [String.toList_eq_nil_iff.1 hnil] at hfirm
  exact absurd hfirm (by decide)

/-! ### Parts without expressions inside them -/

theorem Composes.path {p : Path} (hne : p.segments ≠ []) (h : ∀ s ∈ p.segments, IsCleanName s) :
    Composes [.name p.text] :=
  .name (neatToken_pathText hne h)

theorem Entity.composes {e : Entity} (h : ∀ s ∈ e.names, IsCleanName s) :
    Composes (Dialect.standard.write (.entity e)) := by
  have hname : Composes [.name e.name] := .name (h _ (by simp [Entity.names])).neatToken
  have hlabel : Composes [.name e.label] := .name (h _ (by simp [Entity.names])).neatToken
  rw [Part.write_of_form rfl]
  exact hname.keyword (by decide) hlabel

theorem JoinTarget.composes {t : JoinTarget} (hnames : ∀ s ∈ t.names, IsCleanName s)
    (hpaths : ∀ p ∈ t.paths, p.segments ≠ []) : Composes (t.layout .standard) := by
  cases t with
  | entity e => exact Entity.composes hnames
  | association path label =>
    have hpath := Composes.path (hpaths path List.mem_cons_self) fun s hs =>
      hnames s (List.mem_append_left _ hs)
    have hlabel : Composes [.name label] :=
      .name (hnames _ (List.mem_append_right _ List.mem_cons_self)).neatToken
    exact hpath.keyword (by decide) hlabel

/-! ### Expressions inside a part -/

/-- What is written of the expression composes. -/
def Expr.Composes (e : Expr) : Prop := PersistenceQuery.Composes (Dialect.standard.write (.expr e))

theorem composes_layoutsOfList {es : List Expr} (h : ∀ e ∈ es, e.Composes) :
    ∀ l ∈ layoutsOfList .standard es, Composes l := by
  rw [layoutsOfList_eq_map]
  exact List.forall_mem_map.2 h

theorem Composes.option {o : Option Expr} {lead es : List Emission} (hes : Composes es)
    (hlead : ∀ bs, Composes bs → Composes (es ++ lead ++ bs)) (ho : ∀ e ∈ o.toList, e.Composes) :
    Composes (es ++ layoutOfOption .standard o lead) := by
  cases o with
  | none => simpa [layoutOfOption] using hes
  | some e => simpa [layoutOfOption] using hlead _ (ho e (by simp))

/-- An optional expression behind a keyword. -/
theorem Composes.keywordOption {o : Option Expr} {es : List Emission} {w : String}
    (hw : IsNeatWord w) (hes : Composes es) (ho : ∀ e ∈ o.toList, e.Composes) :
    Composes (es ++ layoutOfOption .standard o (Emission.keyword w)) :=
  hes.option (fun _ hbs => hes.keyword hw hbs) ho

/-- Operands with the word of their operator between them, or the only one on its own. -/
theorem composes_layoutOfOperands (op : LogicalOp) {es : List Expr} (h : ∀ e ∈ es, e.Composes) :
    Composes (layoutOfOperands .standard op es) := by
  cases es with
  | nil => exact .word (by cases op <;> decide)
  | cons e es =>
    rw [layoutOfOperands, Dialect.accept_expr]
    split
    · exact h e List.mem_cons_self
    · have hoperands : ∀ l ∈ layoutsOfOperands .standard op (e :: es), Composes l := by
        rw [layoutsOfOperands_eq_map]
        exact List.forall_mem_map.2 fun e he => Composes.operand _ _ _ (h e he)
      exact .separated (by cases op <;> decide) hoperands (List.cons_ne_nil _ _)

theorem Composes.arms {arms : List Arm} (h : ∀ a ∈ arms, a.condition.Composes ∧ a.result.Composes)
    {es : List Emission} (hes : Composes es) : Composes (es ++ layoutOfArms .standard arms) := by
  induction arms generalizing es with
  | nil => simpa [layoutOfArms] using hes
  | cons arm arms ih =>
    obtain ⟨condition, result⟩ := arm
    obtain ⟨⟨hcondition, hresult⟩, harms⟩ := List.forall_mem_cons.1 h
    have hwhen := hes.keyword (w := "WHEN") (by decide) hcondition
    have hthen := hwhen.keyword (w := "THEN") (by decide) hresult
    simpa [layoutOfArms] using ih harms hthen

/-! ### Selecting queries -/

theorem Join.composes {j : Join} (hnames : ∀ s ∈ j.target.names, IsCleanName s)
    (hpaths : ∀ p ∈ j.target.paths, p.segments ≠ []) (h : ∀ e ∈ j.condition.toList, e.Composes) :
    Composes (Dialect.standard.write (.join j)) := by
  obtain ⟨kind, fetch, target, condition⟩ := j
  have hkind : IsNeatWord kind.keyword := by cases kind <;> decide
  have htarget := JoinTarget.composes hnames hpaths
  rw [Part.write_of_form rfl]
  exact ((htarget.preceded (w := "FETCH") (by decide) fetch).lead hkind).keywordOption
    (by decide) h

theorem Composes.joins {joins : List Join}
    (hnames : ∀ s ∈ joins.flatMap fun j => j.target.names, IsCleanName s)
    (hpaths : ∀ p ∈ joins.flatMap fun j => j.target.paths, p.segments ≠ [])
    (h : ∀ e ∈ joins.flatMap fun j => j.condition.toList, e.Composes) {es : List Emission}
    (hes : Composes es) : Composes (es ++ layoutOfJoins .standard joins) := by
  induction joins generalizing es with
  | nil => simpa [layoutOfJoins] using hes
  | cons j joins ih =>
    rw [List.flatMap_cons, List.forall_mem_append] at hnames hpaths h
    have hj := hes.spaced (Join.composes hnames.1 hpaths.1 h.1)
    simpa [layoutOfJoins] using ih hnames.2 hpaths.2 h.2 hj

theorem composes_layoutsOfSources {sources : List Source}
    (hnames : ∀ s ∈ sources.flatMap Source.ownNames, IsCleanName s)
    (hpaths : ∀ p ∈ sources.flatMap Source.ownPaths, p.segments ≠ [])
    (h : ∀ e ∈ sources.flatMap (fun s => s.joins.flatMap fun j => j.condition.toList),
      e.Composes) :
    ∀ l ∈ layoutsOfSources .standard sources, Composes l := by
  rw [layoutsOfSources_eq_map, List.forall_mem_map]
  intro s hs
  have hown : ∀ n ∈ s.ownNames, IsCleanName n := fun n hn =>
    hnames n (List.mem_flatMap.2 ⟨s, hs, hn⟩)
  obtain ⟨hentity, htargets⟩ := List.forall_mem_append.1 hown
  exact .joins htargets (fun p hp => hpaths p (List.mem_flatMap.2 ⟨s, hs, hp⟩))
    (fun e he => h e (List.mem_flatMap.2 ⟨s, hs, he⟩)) (Entity.composes hentity)

theorem SortKey.composes {k : SortKey} (h : k.key.Composes) :
    Composes (Dialect.standard.write (.sort k)) := by
  obtain ⟨key, order, nulls⟩ := k
  have horder : Composes [.word order.keyword] := .word (by cases order <;> decide)
  have hkey := Composes.spaced h horder
  rw [Part.write_of_form rfl]
  cases nulls with
  | none => simpa [Part.layout, SortKey.layout] using hkey
  | some n =>
    have hnulls : Composes [.word n.keyword] := .word (by cases n <;> decide)
    simpa [Part.layout, SortKey.layout] using hkey.spaced hnulls

theorem composes_layoutsOfKeys {keys : List SortKey}
    (h : ∀ e ∈ keys.map SortKey.key, e.Composes) :
    ∀ l ∈ layoutsOfKeys .standard keys, Composes l := by
  rw [layoutsOfKeys_eq_map, List.forall_mem_map]
  exact fun k hk => SortKey.composes (h _ (List.mem_map_of_mem hk))

/-- The names in a `FROM` clause are clean, its paths have names, and the query keeps the rules. -/
structure Select.IsClean (q : Select) : Prop where
  names : ∀ s ∈ q.ownNames, IsCleanName s
  paths : ∀ p ∈ q.ownPaths, p.segments ≠ []
  shape : q.checkShape = .ok ()

/-- What is written of a selecting query composes if its expressions do. -/
theorem Select.composes {q : Select} (hq : q.IsClean) (h : ∀ e ∈ q.children, e.Composes) :
    Composes (Dialect.standard.write (.select q)) := by
  obtain ⟨hitems, hsources⟩ := Select.ne_nil_of_checkShape hq.shape
  obtain ⟨resultType, distinct, items, sources, filter, groupBy, having, orderBy⟩ := q
  simp only [Select.children, List.forall_mem_append] at h
  obtain ⟨⟨⟨⟨⟨hselected, hconditions⟩, hfilter⟩, hgroup⟩, hhaving⟩, horder⟩ := h
  have hlist := Composes.separated (w := ", ") rfl (composes_layoutsOfList hselected)
    (layoutsOfList_ne_nil hitems)
  have hselect := (hlist.preceded (w := "DISTINCT") (by decide) distinct).lead (w := "SELECT")
    (by decide)
  have hfrom := hselect.keywordItems (w := "FROM") (by decide)
    (composes_layoutsOfSources hq.names hq.paths hconditions) (layoutsOfSources_ne_nil hsources)
  have hwhere := hfrom.keywordOption (w := "WHERE") (by decide) hfilter
  have hgrouped := hwhere.clause (w := "GROUP BY") (by decide) groupBy layoutsOfList_ne_nil
    (composes_layoutsOfList hgroup)
  have hhad := hgrouped.keywordOption (w := "HAVING") (by decide) hhaving
  rw [Part.write_of_form rfl]
  exact hhad.clause (by decide) orderBy layoutsOfKeys_ne_nil (composes_layoutsOfKeys horder)

/-! ### Expressions -/

/-- The names in an expression are clean, its paths have names, and it keeps the rules. -/
structure Expr.IsClean (e : Expr) : Prop where
  names : ∀ s ∈ e.ownNames, IsCleanName s
  paths : ∀ p ∈ e.ownPaths, p.segments ≠ []
  shape : e.checkShape = .ok ()

/-- A call by the rule of the language: with the keyword of its kind, or not at all. -/
theorem Composes.accept {p : Part} (h : ∀ w, IsNeatWord w → Composes (p.layout .standard w))
    {kind : String} (hform : p.form = .call kind) : Composes (Dialect.standard.write p) := by
  have hwords : ∀ call ∈ callKeywords, IsNeatWord call.2 := by decide +kernel
  have hkind : p.kind = kind := by rw [Part.kind, hform, Form.kind]
  rw [Dialect.write, Dialect.accept]
  cases hrule : Dialect.standard.rule? p.kind with
  | none => exact .stop _
  | some r =>
    show Composes (r.accept p _)
    rw [Rule.accept]
    split
    · next hfits =>
      rw [Rule.fits, hform, beq_iff_eq] at hfits
      cases r with
      | construct c => cases hfits
      | call k w =>
        have hmem : (k, w) ∈ callKeywords :=
          Rule.mem_callKeywords (Dialect.rule?_ofRules hrule).1
        exact h w (hwords _ hmem)
    · exact .stop _

/-- What is written of an expression composes if what is written of the expressions in it does. -/
theorem Expr.composes_of_children {e : Expr} (he : e.IsClean)
    (h : ∀ c ∈ e.children, c.Composes) : e.Composes := by
  have hoperand : ∀ parent side c, c ∈ e.children →
      PersistenceQuery.Composes
        (operand parent side c.strength (Dialect.standard.write (.expr c))) :=
    fun parent side c hc => .operand _ _ _ (h c hc)
  rw [Expr.Composes]
  cases e with
  | literal v =>
    rw [Expr.write_of_form rfl]
    have hnames : ∀ s ∈ v.names, IsCleanName s := he.names
    exact .single fun s => if_pos hnames
  | parameter name embedded =>
    rw [Expr.write_of_form rfl]
    exact .single fun s => if_pos (Expr.isParameterName_of_checkShape he.shape)
  | path p =>
    rw [Expr.write_of_form rfl]
    exact .path (he.paths p List.mem_cons_self) he.names
  | entity x =>
    rw [Expr.write_of_form rfl]
    exact .name (he.names _ (List.mem_cons_of_mem _ List.mem_cons_self)).neatToken
  | aliased v label =>
    rw [Expr.write_of_form rfl]
    have hlabel : PersistenceQuery.Composes [.name label] :=
      .name (he.names _ List.mem_cons_self).neatToken
    exact (hoperand .aliased .left v (by simp [children])).keyword (by decide) hlabel
  | arithmetic op l r =>
    rw [Expr.write_of_form rfl]
    have hop : IsNeatWord op.symbol := by cases op <;> decide
    exact (hoperand op.strength .left l (by simp [children])).keyword hop
      (hoperand op.strength (op.rightSide r) r (by simp [children]))
  | negate v =>
    rw [Expr.write_of_form rfl]
    refine .adjoined (by decide) ?_
    split
    · exact .parenthesized (.inr (h v (by simp [children])))
    · exact hoperand .unary .strict v (by simp [children])
  | choice operand arms otherwise =>
    rw [Expr.write_of_form rfl]
    simp only [children, List.forall_mem_append, List.forall_mem_flatMap] at h
    obtain ⟨⟨hsubject, harms⟩, hotherwise⟩ := h
    have hcase : PersistenceQuery.Composes [.word "CASE"] := .word (by decide)
    have hbegun : PersistenceQuery.Composes
        ([.word "CASE"] ++ layoutOfOption .standard operand [.space]) :=
      hcase.option (fun bs hbs => by simpa using hcase.spaced hbs) hsubject
    have hpairs : ∀ a ∈ arms, a.condition.Composes ∧ a.result.Composes := fun a ha => by
      simpa using harms a ha
    have harms := hbegun.arms hpairs
    have helse := harms.keywordOption (w := "ELSE") (by decide) hotherwise
    exact helse.ending (by decide)
  | subquery q =>
    rw [Expr.write_of_form rfl]
    exact .parenthesized (.inr (Select.composes ⟨he.names, he.paths, he.shape⟩ h))
  | comparison op l r =>
    rw [Expr.write_of_form rfl]
    have hop : IsNeatWord op.symbol := by cases op <;> decide
    exact (hoperand .predicate .strict l (by simp [children])).keyword hop
      (hoperand .predicate .strict r (by simp [children]))
  | logical op es =>
    rw [Expr.write_of_form rfl]
    exact composes_layoutOfOperands op h
  | not v =>
    rw [Expr.write_of_form rfl]
    exact (hoperand .not .left v (by simp [children])).lead (by decide)
  | like v p escape negated =>
    rw [Expr.write_of_form rfl]
    have hword : IsNeatWord (negatable negated "LIKE") := by cases negated <;> decide
    have hlike := (hoperand .predicate .strict v (by simp [children])).keyword hword
      (hoperand .predicate .strict p (by simp [children]))
    cases escape with
    | none => simpa [layout] using hlike
    | some c =>
      have hescape := hlike.keyword (w := "ESCAPE") (by decide) (.quoted (String.singleton c))
      simpa [layout] using hescape
  | between v low high negated =>
    rw [Expr.write_of_form rfl]
    have hword : IsNeatWord (negatable negated "BETWEEN") := by cases negated <;> decide
    have hboth := (hoperand .predicate .strict v (by simp [children])).keyword hword
      (hoperand .predicate .strict low (by simp [children]))
    exact hboth.keyword (by decide) (hoperand .predicate .strict high (by simp [children]))
  | inList v es negated =>
    rw [Expr.write_of_form rfl, layout]
    split
    · exact .stop _
    · next hne =>
      have hword : IsNeatWord (negatable negated "IN") := by cases negated <;> decide
      have hmembers := Composes.separated (w := ", ") rfl
        (composes_layoutsOfList fun m hm => h m (List.mem_cons_of_mem _ hm))
        (layoutsOfList_ne_nil fun hnil => hne (by rw [hnil]; rfl))
      exact (hoperand .predicate .strict v (by simp [children])).keyword hword
        (.parenthesized (.inr hmembers))
  | inSubquery v q negated =>
    rw [Expr.write_of_form rfl]
    have hword : IsNeatWord (negatable negated "IN") := by cases negated <;> decide
    have hquery := Select.composes ⟨he.names, he.paths, he.shape⟩
      fun c hc => h c (List.mem_cons_of_mem _ hc)
    exact (hoperand .predicate .strict v (by simp [children])).keyword hword
      (.parenthesized (.inr hquery))
  | isNull v negated =>
    rw [Expr.write_of_form rfl]
    exact (hoperand .predicate .strict v (by simp [children])).ending
      (by cases negated <;> decide)
  | isEmpty p negated =>
    rw [Expr.write_of_form rfl]
    have hp := Composes.path (he.paths p List.mem_cons_self) he.names
    exact hp.ending (by cases negated <;> decide)
  | memberOf v p negated =>
    rw [Expr.write_of_form rfl]
    have hp := Composes.path (he.paths p List.mem_cons_self) he.names
    have hword : IsNeatWord (negatable negated "MEMBER OF") := by cases negated <;> decide
    exact (hoperand .predicate .strict v (by simp [children])).keyword hword hp
  | «exists» q negated =>
    rw [Expr.write_of_form rfl]
    have hword : IsNeatWord (negatable negated "EXISTS") := by cases negated <;> decide
    have hquery := Select.composes ⟨he.names, he.paths, he.shape⟩ h
    exact (PersistenceQuery.Composes.parenthesized (.inr hquery)).lead hword
  | unary f v =>
    have hv := h v (by simp [children])
    exact .accept (fun w hw => .call hw (List.forall_mem_singleton.2 hv)) rfl
  | current m => exact .accept (fun w hw => .call hw (List.forall_mem_nil _)) rfl
  | variadic f es => exact .accept (fun w hw => .call hw (composes_layoutsOfList h)) rfl
  | substring v start length =>
    refine .accept (fun w hw => .call hw ?_) rfl
    rw [List.forall_mem_cons, List.forall_mem_cons]
    refine ⟨h v (by simp [children]), h start (by simp [children]), ?_⟩
    cases length with
    | none => exact List.forall_mem_nil _
    | some e => exact List.forall_mem_singleton.2 (h e (by simp [children]))
  | nullIf l r =>
    refine .accept (fun w hw => .call hw ?_) rfl
    rw [List.forall_mem_cons, List.forall_mem_singleton]
    exact ⟨h l (by simp [children]), h r (by simp [children])⟩
  | aggregate f distinct v =>
    rw [Expr.write_of_form rfl]
    have hf : IsNeatWord f.keyword := by cases f <;> decide
    have hv := Composes.preceded (w := "DISTINCT") (by decide) distinct
      (h v (by simp [children]))
    exact (PersistenceQuery.Composes.parenthesized (.inr hv)).adjoined hf
  | function name es =>
    rw [Expr.write_of_form rfl]
    exact .call (by decide) (List.forall_mem_cons.2 ⟨.quoted name, composes_layoutsOfList h⟩)
  | custom kind es => exact .accept (fun w hw => .call hw (composes_layoutsOfList h)) rfl

/-! ### Queries -/

/-- What is written of a query with clean names that keeps the rules composes. -/
theorem Query.composes {q : Query} (hnames : ∀ s ∈ q.names, IsCleanName s)
    (hpaths : ∀ p ∈ q.paths, p.segments ≠ []) (hshape : q.checkShape = .ok ()) :
    Composes (Dialect.standard.write q.part) := by
  obtain ⟨hown, hnodes⟩ := List.forall_mem_append.1 hnames
  obtain ⟨hownPaths, hnodePaths⟩ := List.forall_mem_append.1 hpaths
  obtain ⟨hroot, hrules⟩ := Query.checkShape_eq_ok.1 hshape
  have hclean : ∀ e ∈ q.nodes, e.IsClean := fun e he =>
    ⟨fun s hs => hnodes s (List.mem_flatMap.2 ⟨e, he, hs⟩),
      fun p hp => hnodePaths p (List.mem_flatMap.2 ⟨e, he, hp⟩), hrules e he⟩
  have hcomposes : ∀ e ∈ q.nodes, e.Composes :=
    Query.forall_nodes (.of_children fun e => Expr.composes_of_children) hclean
  have hchildren : ∀ e ∈ q.children, e.Composes := fun e he =>
    hcomposes e (Query.mem_nodes_iff.2 (.clause he))
  cases q with
  | select q => exact Select.composes ⟨hown, hownPaths, hroot⟩ hchildren
  | update q =>
    obtain ⟨hvalues, hfilter⟩ := List.forall_mem_append.1 hchildren
    obtain ⟨hentity, hsegments⟩ := List.forall_mem_append.1 hown
    have hne : (q.assignments.map fun a => Dialect.standard.write (.assignment a)) ≠ [] := by
      intro hnil
      rw [Query.checkRoot, List.map_eq_nil_iff.1 hnil] at hroot
      cases hentity : q.entity.checkShape <;> rw [hentity] at hroot <;> cases hroot
    have hset : ∀ l ∈ q.assignments.map fun a => Dialect.standard.write (.assignment a),
        Composes l := by
      refine List.forall_mem_map.2 fun a ha => ?_
      have hpath := Composes.path (hownPaths a.path (List.mem_map_of_mem ha)) fun s hs =>
        hsegments s (List.mem_flatMap.2 ⟨a, ha, hs⟩)
      rw [Part.write_of_form rfl]
      exact hpath.keyword (by decide) (hvalues _ (List.mem_map_of_mem ha))
    have hupdate := ((Entity.composes hentity).lead (w := "UPDATE") (by decide)).keywordItems
      (w := "SET") (by decide) hset hne
    show Composes (Dialect.standard.write (.update q))
    rw [Part.write_of_form rfl]
    exact hupdate.keywordOption (by decide) hfilter
  | delete q =>
    have hdelete := (Entity.composes hown).lead (w := "DELETE FROM") (by decide)
    show Composes (Dialect.standard.write (.delete q))
    rw [Part.write_of_form rfl]
    exact hdelete.keywordOption (by decide) hchildren

end PersistenceQuery
