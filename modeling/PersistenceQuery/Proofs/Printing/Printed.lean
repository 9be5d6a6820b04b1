import PersistenceQuery.Proofs.Printing.Prints
import PersistenceQuery.Proofs.Query.Checked
import PersistenceQuery.Proofs.Query.Induction

/-!
# Queries are written as they are printed

Every layout prints the text of its template, whatever has been written in front of it.  For one
expression this follows from the expressions inside it, so by induction all nodes of a query print
their templates, and the rendered query is the printed one.

## Main definitions

* `Expr.IsProper`, `Select.IsProper` — the names are solid, and nothing is empty that must not be.
* `Expr.IsPrinted` — an expression is written as it is printed.

## Main results

* `Expr.isPrinted`, `Select.prints` — one expression, and a selecting query.
* `Query.text_eq_printed` — a query that is rendered with its literals inline has the text of its
  template, and so has every expression in it.
-/

namespace PersistenceQuery

open Text

/-! ### Queries with proper names -/

/-- A name that is not empty and has neither blanks nor delimiters in it. -/
def IsProperName (s : String) : Prop := s ≠ "" ∧ isSolid s = true

theorem IsProperName.isFirm {s : String} (h : IsProperName s) : isFirm s = true :=
  isFirm_of_isSolid h.2 h.1

/-- The names in an expression are proper, its paths have names, and it keeps the rules. -/
structure Expr.IsProper (e : Expr) : Prop where
  names : ∀ s ∈ e.ownNames, IsProperName s
  paths : ∀ p ∈ e.ownPaths, p.segments ≠ []
  shape : e.checkShape = .ok ()

/-- The names in a `FROM` clause are proper, its paths have names, and the query keeps the rules. -/
structure Select.IsProper (q : Select) : Prop where
  names : ∀ s ∈ q.ownNames, IsProperName s
  paths : ∀ p ∈ q.ownPaths, p.segments ≠ []
  shape : q.checkShape = .ok ()

/-- A selecting query that keeps the rules has items and sources. -/
theorem Select.ne_nil_of_checkShape {q : Select} (h : q.checkShape = .ok ()) :
    q.items ≠ [] ∧ q.sources ≠ [] := by
  rw [Select.checkShape] at h
  refine ⟨fun hitems => ?_, fun hsources => ?_⟩
  · rw [hitems] at h
    cases h
  · rw [hsources] at h
    split at h <;> cases h

/-! ### Parts without expressions inside them -/

theorem prints_pathText {p : Path} (hne : p.segments ≠ []) (h : ∀ s ∈ p.segments, IsProperName s) :
    Prints [.name p.text] p.text :=
  .name (isFirm_pathText hne h)

theorem Entity.prints {e : Entity} (h : ∀ s ∈ e.names, IsProperName s) :
    Prints (Dialect.standard.write (.entity e)) e.printed := by
  have hname : Prints [.name e.name] e.name := .name (h _ (by simp [Entity.names])).isFirm
  have hlabel : Prints [.name e.label] e.label := .name (h _ (by simp [Entity.names])).isFirm
  exact .accept fun _ => hname.keyword (by decide) hlabel

theorem JoinTarget.prints {t : JoinTarget} (hnames : ∀ s ∈ t.names, IsProperName s)
    (hpaths : ∀ p ∈ t.paths, p.segments ≠ []) :
    Prints (t.layout .standard) t.printed := by
  cases t with
  | entity e => exact Entity.prints hnames
  | association path label =>
    have hpath := prints_pathText (hpaths path List.mem_cons_self) fun s hs =>
      hnames s (List.mem_append_left _ hs)
    have hlabel : Prints [.name label] label :=
      .name (hnames _ (List.mem_append_right _ List.mem_cons_self)).isFirm
    exact hpath.keyword (by decide) hlabel

/-! ### Expressions inside a part -/

/-- The expression is written as it is printed. -/
def Expr.IsPrinted (e : Expr) : Prop := Prints (Dialect.standard.write (.expr e)) e.printed

/-- An expression is the first of its nodes. -/
theorem Expr.IsPrinted.of_nodes {e : Expr} (h : ∀ n ∈ e.nodes, n.IsPrinted) : e.IsPrinted :=
  h e e.self_mem_nodes

theorem Expr.IsPrinted.of_option {o : Option Expr} (h : ∀ n ∈ nodesOfOption o, n.IsPrinted) :
    ∀ e, o = some e → Prints (Dialect.standard.write (.expr e)) e.printed := by
  rintro e rfl
  exact Expr.IsPrinted.of_nodes h

/-- An expression as an operand. -/
theorem prints_operand (parent : Strength) (side : Side) {e : Expr}
    (h : ∀ n ∈ e.nodes, n.IsPrinted) :
    Prints (Emission.operand parent side e.strength (Dialect.standard.write (.expr e)))
      (operandText parent side e.strength e.printed) :=
  Prints.operand (Expr.IsPrinted.of_nodes h)

theorem prints_layoutsOfList {es : List Expr} (h : ∀ n ∈ nodesOfList es, n.IsPrinted) :
    PrintsItems (layoutsOfList .standard es) (printedList es) := by
  induction es with
  | nil => exact .nil
  | cons e es ih =>
    obtain ⟨he, hes⟩ := List.forall_mem_append.1 h
    exact .cons (Expr.IsPrinted.of_nodes he) (ih hes)

theorem prints_layoutsOfOption {o : Option Expr} (h : ∀ n ∈ nodesOfOption o, n.IsPrinted) :
    PrintsItems (layoutsOfOption .standard o) (printedLast o) := by
  cases o with
  | none => exact .nil
  | some e => exact .cons (Expr.IsPrinted.of_nodes h) .nil

theorem prints_layoutsOfOperands (op : LogicalOp) {es : List Expr}
    (h : ∀ n ∈ nodesOfList es, n.IsPrinted) :
    PrintsItems (layoutsOfOperands .standard op es) (printedChain op es) := by
  induction es with
  | nil => exact .nil
  | cons e es ih =>
    obtain ⟨he, hes⟩ := List.forall_mem_append.1 h
    exact .cons (prints_operand _ _ he) (ih hes)

/-- Operands with the word of their operator between them, or the only one on its own. -/
theorem prints_layoutOfOperands (op : LogicalOp) {es : List Expr}
    (h : ∀ n ∈ nodesOfList es, n.IsPrinted) :
    Prints (layoutOfOperands .standard op es) (printedOperands op es) := by
  cases es with
  | nil => exact .word (by cases op <;> decide)
  | cons e es =>
    cases es with
    | nil =>
      obtain ⟨he, -⟩ := List.forall_mem_append.1 h
      exact Expr.IsPrinted.of_nodes he
    | cons f es =>
      exact Prints.separatedItems (by cases op <;> decide)
        (prints_layoutsOfOperands op h) (List.cons_ne_nil _ _)

theorem Prints.arms {arms : List Arm} (h : ∀ n ∈ nodesOfArms arms, n.IsPrinted)
    {as : List Emission} {t : String} (has : Prints as t) :
    Prints (as ++ layoutOfArms .standard arms) (t ++ printedArms arms) := by
  induction arms generalizing as t with
  | nil => simpa [layoutOfArms, printedArms] using has
  | cons arm arms ih =>
    obtain ⟨condition, result⟩ := arm
    obtain ⟨hboth, harms⟩ := List.forall_mem_append.1 h
    obtain ⟨hcondition, hresult⟩ := List.forall_mem_append.1 hboth
    have hwhen := has.keyword (w := "WHEN") (by decide) (Expr.IsPrinted.of_nodes hcondition)
    have hthen := hwhen.keyword (w := "THEN") (by decide) (Expr.IsPrinted.of_nodes hresult)
    simpa [layoutOfArms, printedArms, String.append_assoc] using ih harms hthen

/-! ### Selecting queries -/

theorem Join.prints {j : Join} (hnames : ∀ s ∈ j.target.names, IsProperName s)
    (hpaths : ∀ p ∈ j.target.paths, p.segments ≠ [])
    (h : ∀ n ∈ nodesOfOption j.condition, n.IsPrinted) :
    Prints (Dialect.standard.write (.join j)) j.printed := by
  obtain ⟨kind, fetch, target, condition⟩ := j
  have hkind : isFirm kind.keyword = true := by cases kind <;> decide
  have htarget := JoinTarget.prints hnames hpaths
  have hjoin := (htarget.preceded (w := "FETCH") (by decide) fetch).lead hkind
  exact .accept fun _ => hjoin.keywordOption (by decide) (Expr.IsPrinted.of_option h)

theorem Prints.joins {joins : List Join}
    (hnames : ∀ s ∈ joins.flatMap fun j => j.target.names, IsProperName s)
    (hpaths : ∀ p ∈ joins.flatMap fun j => j.target.paths, p.segments ≠ [])
    (h : ∀ n ∈ nodesOfJoins joins, n.IsPrinted) {as : List Emission} {t : String}
    (has : Prints as t) :
    Prints (as ++ layoutOfJoins .standard joins) (t ++ printedJoins joins) := by
  induction joins generalizing as t with
  | nil => simpa [layoutOfJoins, printedJoins] using has
  | cons j joins ih =>
    obtain ⟨kind, fetch, target, condition⟩ := j
    obtain ⟨hcondition, hjoins⟩ := List.forall_mem_append.1 h
    rw [List.flatMap_cons, List.forall_mem_append] at hnames hpaths
    have hj := has.spaced (Join.prints hnames.1 hpaths.1 hcondition)
    simpa [layoutOfJoins, printedJoins, String.append_assoc] using
      ih hnames.2 hpaths.2 hjoins hj

theorem prints_layoutsOfSources {sources : List Source}
    (hnames : ∀ s ∈ sources.flatMap Source.ownNames, IsProperName s)
    (hpaths : ∀ p ∈ sources.flatMap Source.ownPaths, p.segments ≠ [])
    (h : ∀ n ∈ nodesOfSources sources, n.IsPrinted) :
    PrintsItems (layoutsOfSources .standard sources) (printedSources sources) := by
  induction sources with
  | nil => exact .nil
  | cons source sources ih =>
    obtain ⟨entity, joins⟩ := source
    obtain ⟨hconditions, hothers⟩ := List.forall_mem_append.1 h
    rw [List.flatMap_cons, List.forall_mem_append] at hnames hpaths
    obtain ⟨hentity, htargets⟩ := List.forall_mem_append.1 hnames.1
    have hsource := Prints.joins htargets hpaths.1 hconditions (Entity.prints hentity)
    exact .cons hsource (ih hnames.2 hpaths.2 hothers)

theorem SortKey.prints {k : SortKey} (h : ∀ n ∈ k.key.nodes, n.IsPrinted) :
    Prints (Dialect.standard.write (.sort k)) k.printed := by
  obtain ⟨key, order, nulls⟩ := k
  have horder : Prints [.word order.keyword] order.keyword := .word (by cases order <;> decide)
  have hkey := Prints.spaced (Expr.IsPrinted.of_nodes h) horder
  refine .accept fun _ => ?_
  cases nulls with
  | none => simpa [Part.layout, SortKey.layout, SortKey.printed] using hkey
  | some n =>
    have hnulls : Prints [.word n.keyword] n.keyword := .word (by cases n <;> decide)
    simpa [Part.layout, SortKey.layout, SortKey.printed] using hkey.spaced hnulls

theorem prints_layoutsOfKeys {keys : List SortKey} (h : ∀ n ∈ nodesOfKeys keys, n.IsPrinted) :
    PrintsItems (layoutsOfKeys .standard keys) (printedKeys keys) := by
  induction keys with
  | nil => exact .nil
  | cons k keys ih =>
    obtain ⟨key, order, nulls⟩ := k
    obtain ⟨hk, hkeys⟩ := List.forall_mem_append.1 h
    exact .cons (SortKey.prints hk) (ih hkeys)

section
variable {D : Dialect}

theorem layoutsOfList_ne_nil {es : List Expr} (h : es ≠ []) : layoutsOfList D es ≠ [] := by
  cases es with
  | nil => exact absurd rfl h
  | cons e es => exact List.cons_ne_nil _ _

theorem layoutsOfSources_ne_nil {sources : List Source} (h : sources ≠ []) :
    layoutsOfSources D sources ≠ [] := by
  cases sources with
  | nil => exact absurd rfl h
  | cons source sources =>
    obtain ⟨entity, joins⟩ := source
    exact List.cons_ne_nil _ _

theorem layoutsOfKeys_ne_nil {keys : List SortKey} (h : keys ≠ []) :
    layoutsOfKeys D keys ≠ [] := by
  cases keys with
  | nil => exact absurd rfl h
  | cons key keys => exact List.cons_ne_nil _ _

end

/-- A selecting query is written as it is printed if its expressions are. -/
theorem Select.prints {q : Select} (hq : q.IsProper) (h : ∀ n ∈ q.nodes, n.IsPrinted) :
    Prints (Dialect.standard.write (.select q)) q.printed := by
  obtain ⟨hitems, hsources⟩ := Select.ne_nil_of_checkShape hq.shape
  obtain ⟨resultType, distinct, items, sources, filter, groupBy, having, orderBy⟩ := q
  obtain ⟨h, horder⟩ := List.forall_mem_append.1 h
  obtain ⟨h, hhaving⟩ := List.forall_mem_append.1 h
  obtain ⟨h, hgroup⟩ := List.forall_mem_append.1 h
  obtain ⟨h, hfilter⟩ := List.forall_mem_append.1 h
  obtain ⟨hselected, hconditions⟩ := List.forall_mem_append.1 h
  have hlist := Prints.separatedItems (w := ", ") (by decide) (prints_layoutsOfList hselected)
    (layoutsOfList_ne_nil hitems)
  have hdistinct := hlist.preceded (w := "DISTINCT") (by decide) distinct
  have hselect := hdistinct.lead (w := "SELECT") (by decide)
  have hfrom := hselect.keywordItems (w := "FROM") (by decide)
    (prints_layoutsOfSources hq.names hq.paths hconditions) (layoutsOfSources_ne_nil hsources)
  have hwhere := hfrom.keywordOption (w := "WHERE") (by decide) (Expr.IsPrinted.of_option hfilter)
  have hgrouped := hwhere.clause (w := "GROUP BY") (by decide) groupBy layoutsOfList_ne_nil
    (prints_layoutsOfList hgroup)
  have hhad := hgrouped.keywordOption (w := "HAVING") (by decide)
    (Expr.IsPrinted.of_option hhaving)
  exact .accept fun _ => hhad.clause (by decide) orderBy layoutsOfKeys_ne_nil
    (prints_layoutsOfKeys horder)

/-! ### Expressions -/

/-- An expression is written as it is printed if the expressions inside it are. -/
theorem Expr.isPrinted : ∀ e : Expr, e.IsProper → (∀ n ∈ e.nodes.tail, n.IsPrinted) → e.IsPrinted
  | .literal v, he, _ => .accept fun _ => .value fun s hs => (he.names s hs).2
  | .parameter name embedded, he, _ => .accept fun _ =>
    .parameter (Expr.isParameterName_of_checkShape he.shape) embedded
  | .path p, he, _ => .accept fun _ => prints_pathText (he.paths p List.mem_cons_self) he.names
  | .entity e, he, _ => .accept fun _ =>
    .name (he.names _ (List.mem_cons_of_mem _ List.mem_cons_self)).isFirm
  | .aliased v label, he, h => .accept fun _ => by
    have hlabel : Prints [.name label] label := .name (he.names _ List.mem_cons_self).isFirm
    exact (prints_operand .aliased .left h).keyword (by decide) hlabel
  | .arithmetic op l r, _, h => .accept fun _ => by
    obtain ⟨hl, hr⟩ := List.forall_mem_append.1 h
    have hop : isFirm op.symbol = true := by cases op <;> decide
    exact (prints_operand op.strength .left hl).keyword hop
      (prints_operand op.strength (op.rightSide r) hr)
  | .negate v, _, h => .accept fun _ => by
    refine .adjoined (by decide) ?_
    split
    · exact .parenthesized (Prints.fills (Expr.IsPrinted.of_nodes h))
    · exact prints_operand .unary .strict h
  | .choice operand arms otherwise, _, h => .accept fun _ => by
    obtain ⟨h, hotherwise⟩ := List.forall_mem_append.1 h
    obtain ⟨hoperand, harms⟩ := List.forall_mem_append.1 h
    have hcase : Prints [.word "CASE"] "CASE" := .word (by decide)
    have hsubject := hcase.option (Expr.IsPrinted.of_option hoperand)
    have helse := (hsubject.arms harms).keywordOption (w := "ELSE") (by decide)
      (Expr.IsPrinted.of_option hotherwise)
    exact helse.ending (by decide)
  | .subquery q, he, h => .accept fun _ =>
    .parenthesized (Select.prints ⟨he.names, he.paths, he.shape⟩ h).fills
  | .comparison op l r, _, h => .accept fun _ => by
    obtain ⟨hl, hr⟩ := List.forall_mem_append.1 h
    have hop : isFirm op.symbol = true := by cases op <;> decide
    exact (prints_operand .predicate .strict hl).keyword hop
      (prints_operand .predicate .strict hr)
  | .logical op es, _, h => .accept fun _ => prints_layoutOfOperands op h
  | .not e, _, h => .accept fun _ => (prints_operand .not .left h).lead (by decide)
  | .like v p escape negated, _, h => .accept fun _ => by
    obtain ⟨hv, hp⟩ := List.forall_mem_append.1 h
    have hword : isFirm (negatable negated "LIKE") = true := by cases negated <;> decide
    have hlike := (prints_operand .predicate .strict hv).keyword hword
      (prints_operand .predicate .strict hp)
    cases escape with
    | none => simpa [Part.layout, Expr.layout, Expr.printed] using hlike
    | some c =>
      have hescape := hlike.keyword (w := "ESCAPE") (by decide) (.quoted (String.singleton c))
      simpa [Part.layout, Expr.layout, Expr.printed, String.append_assoc] using hescape
  | .between v low high negated, _, h => .accept fun _ => by
    obtain ⟨h, hhigh⟩ := List.forall_mem_append.1 h
    obtain ⟨hv, hlow⟩ := List.forall_mem_append.1 h
    have hword : isFirm (negatable negated "BETWEEN") = true := by cases negated <;> decide
    have hboth := (prints_operand .predicate .strict hv).keyword hword
      (prints_operand .predicate .strict hlow)
    exact hboth.keyword (by decide) (prints_operand .predicate .strict hhigh)
  | .inList _ [] _, _, _ => .accept fun _ => .stop _ _
  | .inList v (e :: es) negated, _, h => .accept fun _ => by
    obtain ⟨hv, hes⟩ := List.forall_mem_append.1 h
    have hword : isFirm (negatable negated "IN") = true := by cases negated <;> decide
    have hmembers := Prints.parenthesized (Fills.items (prints_layoutsOfList hes))
    exact (prints_operand .predicate .strict hv).keyword hword hmembers
  | .inSubquery v q negated, he, h => .accept fun _ => by
    obtain ⟨hv, hq⟩ := List.forall_mem_append.1 h
    have hword : isFirm (negatable negated "IN") = true := by cases negated <;> decide
    have hquery := Prints.parenthesized (Select.prints ⟨he.names, he.paths, he.shape⟩ hq).fills
    exact (prints_operand .predicate .strict hv).keyword hword hquery
  | .isNull v negated, _, h => .accept fun _ =>
    (prints_operand .predicate .strict h).ending (by cases negated <;> decide)
  | .isEmpty p negated, he, _ => .accept fun _ => by
    have hp := prints_pathText (he.paths p List.mem_cons_self) he.names
    exact hp.ending (by cases negated <;> decide)
  | .memberOf v p negated, he, h => .accept fun _ => by
    have hp := prints_pathText (he.paths p List.mem_cons_self) he.names
    have hword : isFirm (negatable negated "MEMBER OF") = true := by cases negated <;> decide
    exact (prints_operand .predicate .strict h).keyword hword hp
  | .exists q negated, he, h => .accept fun _ => by
    have hword : isFirm (negatable negated "EXISTS") = true := by cases negated <;> decide
    have hquery := Prints.parenthesized (Select.prints ⟨he.names, he.paths, he.shape⟩ h).fills
    exact hquery.lead hword
  | .unary f v, _, h => .acceptCall rfl fun hw =>
    .call hw (.cons (Expr.IsPrinted.of_nodes h) .nil)
  | .current m, _, _ => .acceptCall rfl fun hw => .call hw .nil
  | .variadic f es, _, h => .acceptCall rfl fun hw => .call hw (prints_layoutsOfList h)
  | .substring v start length, _, h => .acceptCall rfl fun hw => by
    obtain ⟨h, hlength⟩ := List.forall_mem_append.1 h
    obtain ⟨hv, hstart⟩ := List.forall_mem_append.1 h
    exact .call hw (.cons (Expr.IsPrinted.of_nodes hv) (.cons (Expr.IsPrinted.of_nodes hstart)
      (prints_layoutsOfOption hlength)))
  | .nullIf l r, _, h => .acceptCall rfl fun hw => by
    obtain ⟨hl, hr⟩ := List.forall_mem_append.1 h
    exact .call hw (.cons (Expr.IsPrinted.of_nodes hl) (.cons (Expr.IsPrinted.of_nodes hr) .nil))
  | .aggregate f distinct v, _, h => .accept fun _ => by
    have hf : startsFirm f.keyword = true := by cases f <;> decide
    have hv := Prints.preceded (w := "DISTINCT") (by decide) distinct (Expr.IsPrinted.of_nodes h)
    exact (Prints.parenthesized hv.fills).adjoined hf
  | .function name es, _, h => .accept fun _ =>
    .call (by decide) (.cons (.quoted name) (prints_layoutsOfList h))
  | .custom kind es, _, h => .acceptCall rfl fun hw => .call hw (prints_layoutsOfList h)

/-! ### Queries -/

theorem prints_assignments {as : List Assignment}
    (hnames : ∀ s ∈ as.flatMap fun a => a.path.segments, IsProperName s)
    (hpaths : ∀ p ∈ as.map Assignment.path, p.segments ≠ [])
    (h : ∀ n ∈ as.flatMap fun a => a.value.nodes, n.IsPrinted) :
    PrintsItems (as.map fun a => Dialect.standard.write (.assignment a))
      (as.map Assignment.printed) := by
  induction as with
  | nil => exact .nil
  | cons a as ih =>
    rw [List.flatMap_cons, List.forall_mem_append] at hnames h
    rw [List.map_cons, List.forall_mem_cons] at hpaths
    have ha : Prints (Dialect.standard.write (.assignment a)) a.printed := .accept fun _ =>
      (prints_pathText hpaths.1 hnames.1).keyword (by decide) (Expr.IsPrinted.of_nodes h.1)
    exact .cons ha (ih hnames.2 hpaths.2 h.2)

/-- A query is written as it is printed if its expressions are. -/
theorem Query.prints {q : Query} (hnames : ∀ s ∈ q.ownNames, IsProperName s)
    (hpaths : ∀ p ∈ q.ownPaths, p.segments ≠ []) (hroot : q.checkRoot = .ok ())
    (h : ∀ n ∈ q.nodes, n.IsPrinted) : Prints (Dialect.standard.write q.part) q.printed := by
  cases q with
  | select q => exact Select.prints ⟨hnames, hpaths, hroot⟩ h
  | update q =>
    obtain ⟨hvalues, hfilter⟩ := List.forall_mem_append.1 h
    obtain ⟨hentity, hsegments⟩ := List.forall_mem_append.1 hnames
    have hne : (q.assignments.map fun a => Dialect.standard.write (.assignment a)) ≠ [] := by
      intro hnil
      rw [Query.checkRoot, List.map_eq_nil_iff.1 hnil] at hroot
      cases hentity : q.entity.checkShape <;> rw [hentity] at hroot <;> cases hroot
    have hset := ((Entity.prints hentity).lead (w := "UPDATE") (by decide)).keywordItems
      (w := "SET") (by decide) (prints_assignments hsegments hpaths hvalues) hne
    exact .accept fun _ => hset.keywordOption (by decide) (Expr.IsPrinted.of_option hfilter)
  | delete q =>
    have hdelete := (Entity.prints hnames).lead (w := "DELETE FROM") (by decide)
    exact .accept fun _ => hdelete.keywordOption (by decide) (Expr.IsPrinted.of_option h)

/-- All expressions of a query that keeps the rules are written as they are printed. -/
theorem Query.isPrinted_of_mem_nodes {q : Query} (hnames : ∀ s ∈ q.names, IsProperName s)
    (hpaths : ∀ p ∈ q.paths, p.segments ≠ []) (hshape : q.checkShape = .ok ()) :
    ∀ e ∈ q.nodes, e.IsPrinted := by
  refine Query.forall_nodes Expr.isPrinted fun e he => ⟨fun s hs => ?_, fun p hp => ?_, ?_⟩
  · exact hnames s (List.mem_append_right _ (List.mem_flatMap.2 ⟨e, he, hs⟩))
  · exact hpaths p (List.mem_append_right _ (List.mem_flatMap.2 ⟨e, he, hp⟩))
  · exact (Query.checkShape_eq_ok.1 hshape).2 e he

/-- A query that is rendered with its literals inline has the text of its template.  So has every
expression in it, whatever is written in front: it adds a space that is pending and its text. -/
theorem Query.text_eq_printed {q : Query} {supplied : Option Bindings} {r : Rendered}
    (hnames : ∀ s ∈ q.names, s ≠ "" ∧ isSolid s = true) (hpaths : ∀ p ∈ q.paths, p.segments ≠ [])
    (h : q.render .standard supplied .inline = .ok r) :
    r.text = q.printed
      ∧ ∀ e ∈ q.nodes, ∀ d d' : Draft, d.binder.mode = .inline →
        d.emitAll (Dialect.standard.write (.expr e)) = (d', none) →
        d'.text = d.text ++ d.gap ++ e.printed := by
  obtain ⟨hshape, -, hrendered⟩ := Query.render_eq_ok.1 h
  have hnodes := Query.isPrinted_of_mem_nodes hnames hpaths hshape
  have hprints := Query.prints (fun s hs => hnames s (List.mem_append_left _ hs))
    (fun p hp => hpaths p (List.mem_append_left _ hp)) (Query.checkShape_eq_ok.1 hshape).1 hnodes
  exact ⟨hprints.text_of_rendered (Query.mode_binder q supplied .inline) hrendered,
    fun e he d d' hmode hemit => (hnodes e he d d' hmode hemit).2⟩

/-- Words that ask for a space behind them stand in front of words, a separator and a parenthesis,
and a negative literal stands under a minus sign. -/
def rankedTitles : Query := .select {
  resultType := "Row"
  distinct := true
  items := [.path ⟨["b", "title"]⟩,
    .aliased (.choice none [⟨.isNull (.path ⟨["b", "rank"]⟩) false, .negate (.literal (.int (-1)))⟩]
      (some (.path ⟨["b", "rank"]⟩))) "rank"]
  sources := [⟨⟨"Book", "b"⟩, [⟨.left, true, .association ⟨["b", "author"]⟩ "a", none⟩]⟩]
  filter := some (.logical .and [
    .logical .or [.isEmpty ⟨["b", "tags"]⟩ true,
      .comparison .eq (.parameter "title" (some (.string "Emma"))) (.path ⟨["b", "title"]⟩),
      .isNull (.path ⟨["a", "name"]⟩) true],
    .exists ⟨"Loan", false, [.unary .upper (.path ⟨["l", "reader"]⟩)],
      [⟨⟨"Loan", "l"⟩, []⟩], some (.isNull (.path ⟨["l", "returned"]⟩) false), [], none, []⟩ true])
  groupBy := []
  having := none
  orderBy := [⟨.path ⟨["b", "title"]⟩, .asc, some .first⟩] }

theorem text_rankedTitles :
    ∃ r, rankedTitles.render .standard none .inline = .ok r
      ∧ (∀ e ∈ rankedTitles.nodes, ∀ d d' : Draft, d.binder.mode = .inline →
        d.emitAll (Dialect.standard.write (.expr e)) = (d', none) →
        d'.text = d.text ++ d.gap ++ e.printed)
      ∧ r.text = "SELECT DISTINCT b.title, "
        ++ "CASE WHEN b.rank IS NULL THEN -(-1) ELSE b.rank END AS rank "
        ++ "FROM Book AS b LEFT JOIN FETCH b.author AS a "
        ++ "WHERE (b.tags IS NOT EMPTY OR :title = b.title OR a.name IS NOT NULL) "
        ++ "AND NOT EXISTS (SELECT UPPER(l.reader) FROM Loan AS l WHERE l.returned IS NULL) "
        ++ "ORDER BY b.title ASC NULLS FIRST" := by
  have hparts : rankedTitles.parts.findSome?
      (Part.fault? .standard (rankedTitles.binder none .inline)) = none := by decide +kernel
  obtain ⟨r, hr⟩ := Query.exists_render Dialect.standard_hasWords rfl rfl hparts
  obtain ⟨htext, hnodes⟩ := Query.text_eq_printed (by decide +kernel) (by decide +kernel) hr
  exact ⟨r, hr, hnodes, htext.trans (by decide +kernel)⟩

end PersistenceQuery
