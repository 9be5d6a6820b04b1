import Mathlib.Data.List.Count
import PersistenceQuery.Proofs.Rendering.Clear

/-!
# Parentheses in a rendered query

A layout puts its parentheses in pairs around what it writes, and nothing that a query brings can
break a pair: a name is asked to hold no parenthesis, and what else comes from the query stands
between quotes, where parentheses do not count.

## Main definitions

* `Balanced` — parentheses that are closed are open, and all are closed in the end.
* `Nested` — a text that closes its quotes and is balanced outside of them.

## Main results

* `Nested.parenthesized`, `Nested.append` — the two ways in which a layout puts texts together.
* `Written.nests` — what a layout adds to a draft is nested.
* `Query.balanced_render` — the text of a rendered query is balanced outside of its quotes.
-/

namespace PersistenceQuery

open Text

/-! ### Balanced texts -/

/-- No prefix closes more parentheses than it opens, and in the end all of them are closed. -/
structure Balanced (cs : List Char) : Prop where
  prefixes : ∀ as, as <+: cs → as.count ')' ≤ as.count '('
  total : cs.count ')' = cs.count '('

/-- The character is no parenthesis. -/
def isNoParenthesis (c : Char) : Bool := c != '(' && c != ')'

theorem isNoParenthesis_iff {c : Char} : isNoParenthesis c = true ↔ c ≠ '(' ∧ c ≠ ')' := by
  rw [isNoParenthesis, Bool.and_eq_true, bne_iff_ne, bne_iff_ne]

namespace Balanced

variable {as bs cs : List Char}

theorem count_of_isNoParenthesis (h : cs.all isNoParenthesis = true) :
    cs.count ')' = 0 ∧ cs.count '(' = 0 := by
  rw [List.all_eq_true] at h
  refine ⟨List.count_eq_zero.2 fun hmem => ?_, List.count_eq_zero.2 fun hmem => ?_⟩
  · exact absurd (h _ hmem) (by decide)
  · exact absurd (h _ hmem) (by decide)

/-- A text without parentheses is balanced. -/
theorem of_isNoParenthesis (h : cs.all isNoParenthesis = true) : Balanced cs := by
  refine ⟨fun as has => ?_, ?_⟩
  · have hall : as.all isNoParenthesis = true :=
      List.all_eq_true.2 fun c hc => List.all_eq_true.1 h c (has.subset hc)
    rw [(count_of_isNoParenthesis hall).1]
    exact Nat.zero_le _
  · obtain ⟨hclosing, hopening⟩ := count_of_isNoParenthesis h
    rw [hclosing, hopening]

theorem append (has : Balanced as) (hbs : Balanced bs) : Balanced (as ++ bs) := by
  refine ⟨fun cs hcs => ?_, ?_⟩
  · rcases List.prefix_or_prefix_of_prefix hcs (List.prefix_append as bs) with h | ⟨ds, rfl⟩
    · exact has.prefixes cs h
    · have hds : ds <+: bs := (List.prefix_append_right_inj as).1 hcs
      -- the first text is complete, and counts the same on both sides
      rw [List.count_append, List.count_append, has.total]
      exact Nat.add_le_add_left (hbs.prefixes ds hds) _
  · rw [List.count_append, List.count_append, has.total, hbs.total]

theorem parenthesized (h : Balanced cs) : Balanced ('(' :: (cs ++ [')'])) := by
  refine ⟨fun as has => ?_, ?_⟩
  · rcases List.prefix_cons_iff.1 has with rfl | ⟨bs, rfl, hbs⟩
    · exact Nat.le_refl _
    · rw [List.count_cons_self, List.count_cons_of_ne (by decide)]
      rcases List.prefix_or_prefix_of_prefix hbs (List.prefix_append cs [')']) with h' | ⟨ds, rfl⟩
      · exact Nat.le_succ_of_le (h.prefixes bs h')
      · have hds : ds <+: [')'] := (List.prefix_append_right_inj cs).1 hbs
        have hlast : ds.count ')' ≤ 1 := hds.sublist.count_le ')'
        rw [List.count_append, List.count_append, h.total]
        omega
  · rw [List.count_cons_self, List.count_cons_of_ne (by decide), List.count_append,
      List.count_append, h.total]
    rfl

/-- Ends without parentheses do not count. -/
theorem of_append (has : as.all isNoParenthesis = true) (hbs : bs.all isNoParenthesis = true)
    (h : Balanced (as ++ (cs ++ bs))) : Balanced cs := by
  obtain ⟨hclosing, hopening⟩ := count_of_isNoParenthesis has
  obtain ⟨hclosing', hopening'⟩ := count_of_isNoParenthesis hbs
  refine ⟨fun ds hds => ?_, ?_⟩
  · have hprefix : as ++ ds <+: as ++ (cs ++ bs) :=
      (List.prefix_append_right_inj as).2 (hds.trans (List.prefix_append cs bs))
    have hcount := h.prefixes _ hprefix
    rwa [List.count_append, List.count_append, hclosing, hopening, Nat.zero_add,
      Nat.zero_add] at hcount
  · have htotal := h.total
    simp only [List.count_append, hclosing, hopening, hclosing', hopening', Nat.zero_add,
      Nat.add_zero] at htotal
    exact htotal

end Balanced

/-! ### Balanced outside of quotes -/

/-- The text closes its quotes, and outside of them it is balanced. -/
structure Nested (cs : List Char) : Prop where
  closed : isQuoting false cs = false
  balanced : Balanced (unquoted cs)

namespace Nested

variable {as bs cs : List Char}

theorem of_clear (h : Clear isNoParenthesis cs) : Nested cs := ⟨h.closed, .of_isNoParenthesis h.all⟩

theorem nil : Nested [] := .of_clear (.of_notMem List.not_mem_nil rfl)

theorem append (has : Nested as) (hbs : Nested bs) : Nested (as ++ bs) :=
  ⟨by rw [isQuoting_append, has.closed, hbs.closed],
    by rw [unquoted_append has.closed]; exact has.balanced.append hbs.balanced⟩

/-- A space that may stand in front of a token. -/
theorem of_gap {gap : List Char} (h : gap = [] ∨ gap = [' ']) : Nested gap := by
  rcases h with rfl | rfl
  · exact nil
  · exact .of_clear (.of_notMem (by decide) (by decide))

theorem parenthesized (h : Nested cs) : Nested ('(' :: (cs ++ [')'])) := by
  have hunquoted : unquoted ('(' :: (cs ++ [')'])) = '(' :: (unquoted cs ++ [')']) := by
    rw [← List.singleton_append, unquoted_append (by decide), unquoted_append h.closed]
    rfl
  refine ⟨?_, ?_⟩
  · rw [isQuoting, if_neg (by decide), isQuoting_append, h.closed]
    rfl
  · rw [hunquoted]
    exact h.balanced.parenthesized

/-- Trimming takes away no parentheses. -/
theorem trim (h : Nested cs) : Nested (trim cs) := by
  obtain ⟨hclosed, as, bs, has, hbs, heq⟩ := exists_unquoted_trim h.closed
  have hblank : ∀ {ds : List Char}, (∀ c ∈ ds, isBlank c = true) → ds.all isNoParenthesis = true :=
    fun hds => List.all_eq_true.2 fun c hc => isNoParenthesis_iff.2
      ⟨fun heq => absurd (heq ▸ hds c hc) (by decide),
        fun heq => absurd (heq ▸ hds c hc) (by decide)⟩
  have hbalanced := h.balanced
  rw [heq] at hbalanced
  exact ⟨hclosed, hbalanced.of_append (hblank has) (hblank hbs)⟩

end Nested

/-! ### Drafts -/

/-- The draft grows by a nested text when the emissions are written. -/
def Emission.Nests (es : List Emission) : Prop :=
  ∀ d d' : Draft, d.emitAll es = (d', none) →
    ∃ cs, Nested cs ∧ d'.text.toList = d.text.toList ++ cs

namespace Emission

variable {e : Emission} {as bs es : List Emission}

theorem nests_nil : Nests [] := by
  intro d d' h
  simp only [Draft.emitAll_nil, Prod.mk.injEq, and_true] at h
  exact ⟨[], .nil, by rw [h, List.append_nil]⟩

theorem nests_append (has : Nests as) (hbs : Nests bs) : Nests (as ++ bs) := by
  intro d d' h
  obtain ⟨d₁, h₁, h₂⟩ := Draft.emitAll_append_eq_none.1 h
  obtain ⟨cs, hcs, htext⟩ := has d d₁ h₁
  obtain ⟨cs', hcs', htext'⟩ := hbs d₁ d' h₂
  exact ⟨cs ++ cs', hcs.append hcs', by rw [htext', htext, List.append_assoc]⟩

/-- An emission whose token is nested. -/
theorem nests_singleton (h : ∀ b, Nested (e.token b).toList) : Nests [e] := by
  intro d d' hemit
  obtain ⟨d₁, he, hnil⟩ := Draft.emitAll_cons_eq_none.1 hemit
  simp only [Draft.emitAll_nil, Prod.mk.injEq, and_true] at hnil
  obtain ⟨gap, hgap, htext⟩ := Draft.exists_gap_emit he
  exact ⟨_, (Nested.of_gap hgap).append (h d.binder), by rw [← hnil, htext]⟩

theorem nests_cons (h : ∀ b, Nested (e.token b).toList) (hes : Nests es) : Nests (e :: es) :=
  nests_append (nests_singleton h) hes

/-- The two parentheses make a pair around what is written between them. -/
theorem nests_parenthesized (hes : Nests es) : Nests (parenthesized es) := by
  intro d d' h
  obtain ⟨d₁, hopening, hrest⟩ := Draft.emitAll_cons_eq_none.1 h
  obtain ⟨d₂, hinner, hclosing⟩ := Draft.emitAll_append_eq_none.1 hrest
  obtain ⟨d₃, hclosing, hnil⟩ := Draft.emitAll_cons_eq_none.1 hclosing
  simp only [Draft.emitAll_nil, Prod.mk.injEq, and_true] at hnil
  obtain ⟨gap, hgap, htext₁⟩ := Draft.exists_gap_emit hopening
  obtain ⟨cs, hcs, htext₂⟩ := hes d₁ d₂ hinner
  obtain ⟨gap', hgap', htext₃⟩ := Draft.exists_gap_emit hclosing
  refine ⟨gap ++ '(' :: ((cs ++ gap') ++ [')']),
    (Nested.of_gap hgap).append (hcs.append (.of_gap hgap')).parenthesized, ?_⟩
  rw [← hnil, htext₃, htext₂, htext₁, token_opening, token_closing]
  simp

end Emission

/-! ### Layouts -/

theorem isNoParenthesis_of_isTokenChar (c : Char) (h : isTokenChar c = true) :
    isNoParenthesis c = true :=
  isNoParenthesis_iff.2
    ⟨fun heq => absurd (heq ▸ h) (by decide), fun heq => absurd (heq ▸ h) (by decide)⟩

/-- A layout whose tokens hold no parentheses beside those that it writes in pairs adds a nested
text to a draft. -/
theorem Written.nests {P : String → Prop} {es : List Emission} {ns : List Expr}
    (h : Written P es ns)
    (htokens : ∀ e ∈ es, e ≠ .opening → e ≠ .closing → ∀ b, Nested (e.token b).toList) :
    Emission.Nests es := by
  have hparenthesized : ∀ {es : List Emission},
      (∀ e ∈ Emission.parenthesized es, e ≠ .opening → e ≠ .closing →
        ∀ b, Nested (e.token b).toList) →
      ∀ e ∈ es, e ≠ .opening → e ≠ .closing → ∀ b, Nested (e.token b).toList :=
    fun hes e he => hes e (List.mem_cons_of_mem _ (List.mem_append_left _ he))
  induction h with
  | nothing => exact Emission.nests_nil
  | inside _ _ _ ih => exact ih htokens
  | parenthesized _ ih => exact Emission.nests_parenthesized (ih (hparenthesized htokens))
  | minus _ ih =>
    obtain ⟨hminus, hes⟩ := List.forall_mem_cons.1 htokens
    exact Emission.nests_cons (hminus nofun nofun) (ih hes)
  | applied _ _ ih =>
    obtain ⟨hword, hes⟩ := List.forall_mem_cons.1 htokens
    exact Emission.nests_cons (hword nofun nofun)
      (Emission.nests_parenthesized (ih (hparenthesized hes)))
  | spaced _ _ iha ihb =>
    obtain ⟨has, hbs⟩ := List.forall_mem_append.1 htokens
    obtain ⟨hspace, hbs⟩ := List.forall_mem_cons.1 hbs
    exact Emission.nests_append (iha has) (Emission.nests_cons (hspace nofun nofun) (ihb hbs))
  | separated _ _ _ iha ihb =>
    obtain ⟨has, hbs⟩ := List.forall_mem_append.1 htokens
    obtain ⟨hword, hbs⟩ := List.forall_mem_cons.1 hbs
    exact Emission.nests_append (iha has) (Emission.nests_cons (hword nofun nofun) (ihb hbs))
  | _ => exact Emission.nests_singleton (htokens _ List.mem_cons_self nofun nofun)

/-! ### Rendered queries -/

/-- Reading the text of a rendered query without what is quoted in it, one never meets a closing
parenthesis that nothing has opened, and in the end all parentheses are closed.  Names without
parentheses and quotes are all it takes; literals, names of functions and escape characters may be
any. -/
theorem Query.balanced_render {q : Query} {supplied : Option Bindings} {mode : Mode}
    {r : Rendered}
    (hnames : ∀ s ∈ q.names, '(' ∉ s.toList ∧ ')' ∉ s.toList ∧ '\'' ∉ s.toList)
    (h : q.render .standard supplied mode = .ok r) :
    (∀ as, as <+: r.text.toList → (unquoted as).count ')' ≤ (unquoted as).count '(')
      ∧ (unquoted r.text.toList).count ')' = (unquoted r.text.toList).count '(' := by
  have hwritten : Written (fun s => s.toList.all (fun c => isNoParenthesis c && isNoQuote c) = true)
      (Dialect.standard.write q.part) q.nodes := by
    refine Query.written Dialect.standard_hasWords q fun s hs => List.all_eq_true.2 fun c hc => ?_
    obtain ⟨hopening, hclosing, hquote⟩ := hnames s hs
    exact Bool.and_eq_true_iff.2 ⟨isNoParenthesis_iff.2 ⟨fun heq => hopening (heq ▸ hc),
      fun heq => hclosing (heq ▸ hc)⟩, bne_iff_ne.2 fun heq => hquote (heq ▸ hc)⟩
  have hspells := hwritten.spells_of_mem (fun c hc => Bool.and_eq_true_iff.2
    ⟨isNoParenthesis_iff.2 ⟨fun heq => absurd (heq ▸ hc) (by decide),
      fun heq => absurd (heq ▸ hc) (by decide)⟩,
      bne_iff_ne.2 fun heq => absurd (heq ▸ hc) (by decide)⟩) rfl rfl
  obtain ⟨d, hemit, htext, hparams⟩ := Query.exists_draft_of_render h
  have hnests := hwritten.nests fun e he hopening hclosing b =>
    .of_clear (Emission.clear_token isNoParenthesis_of_isTokenChar hopening hclosing
      (hspells e he) (fun s v heq => hparams s v (heq ▸ he)) fun _ _ _ _ => rfl)
  obtain ⟨cs, hcs, heq⟩ := hnests _ _ hemit
  have hnested : Nested r.text.toList := by
    rw [htext, heq]
    exact hcs.trim
  exact ⟨fun as has => hnested.balanced.prefixes _ (prefix_unquoted has), hnested.balanced.total⟩

/-- Nested calls and a list, with parentheses in a literal, in the name of a function and as an
escape character. -/
def booksByNote : Query := .select {
  resultType := "Book"
  distinct := false
  items := [.entity ⟨"Book", "b"⟩]
  sources := [⟨⟨"Book", "b"⟩, []⟩]
  filter := some (.logical .and [
    .like (.function "f(" [.variadic .coalesce [.path ⟨["b", "note"]⟩, .literal (.string "):-)")]])
      (.literal (.string "it's (%")) (some '(') false,
    .inList (.path ⟨["b", "rank"]⟩) [.literal (.int 1), .negate (.literal (.int (-2)))] false])
  groupBy := []
  having := none
  orderBy := [] }

theorem balanced_booksByNote :
    (∀ s ∈ booksByNote.names, '(' ∉ s.toList ∧ ')' ∉ s.toList ∧ '\'' ∉ s.toList)
      ∧ ∃ r, booksByNote.render .standard none .inline = .ok r
        ∧ (∀ as, as <+: r.text.toList → (unquoted as).count ')' ≤ (unquoted as).count '(')
        ∧ (unquoted r.text.toList).count ')' = (unquoted r.text.toList).count '(' := by
  have hnames : ∀ s ∈ booksByNote.names, '(' ∉ s.toList ∧ ')' ∉ s.toList ∧ '\'' ∉ s.toList := by
    decide +kernel
  obtain ⟨r, hr⟩ := exists_of_isOk (x := booksByNote.render .standard none .inline)
    (by decide +kernel)
  exact ⟨hnames, r, hr, Query.balanced_render hnames hr⟩

end PersistenceQuery
