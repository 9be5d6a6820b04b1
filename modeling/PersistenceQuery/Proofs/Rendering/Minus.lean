import PersistenceQuery.Proofs.Query.Rules
import PersistenceQuery.Proofs.Rendering.Guarded

/-!
# Comments that a rendered query opens

Two minus signs side by side open a comment that hides the rest of a query.  Outside of quotes they
stand in a rendered text only where a negation is exposed: its operand is a negative literal that
stands alone in a conjunction or disjunction.

## Main definitions

* `Single` — no minus sign stands next to another.
* `Draft.EndsInMinus` — a sign that is written next would meet another.

## Main results

* `single_iff` — the same said of two signs in a row.
* `Emission.exists_figures`, `Emission.clear_token_of_unsigned` — the tokens of emissions that are
  signed, and of those that are not.
* `Draft.single_emitAll`, `Draft.infix_of_emitAll` — what is written of a guarded layout has no
  two signs in a row, and that of any other has.
* `Query.opensComment_iff` — a rendered query holds two signs in a row exactly where literals are
  written inline and a negation is exposed.
-/

namespace PersistenceQuery

open Text

/-! ### Texts -/

/-- No minus sign stands next to another. -/
def Single (cs : List Char) : Prop := cs.IsChain fun c d => c = '-' → d ≠ '-'

theorem single_iff {cs : List Char} : Single cs ↔ ¬ ['-', '-'] <:+: cs := by
  rw [Single, List.isChain_iff_forall_rel_of_append_cons_cons]
  constructor
  · rintro h ⟨as, bs, rfl⟩
    exact @h '-' '-' as bs (by simp) rfl rfl
  · rintro h c d as bs rfl rfl rfl
    exact h ⟨as, bs, by simp⟩

namespace Single

variable {as bs : List Char}

theorem append (has : Single as) (hbs : Single bs)
    (h : as.getLast? = some '-' → bs.head? ≠ some '-') : Single (as ++ bs) := by
  refine List.isChain_append.2 ⟨has, hbs, ?_⟩
  rintro c hc d hd rfl rfl
  exact h hc hd

theorem of_isNoMinus (h : bs.all isNoMinus = true) : Single bs := by
  refine single_iff.2 fun hinfix => ?_
  have hmem : '-' ∈ bs := hinfix.subset List.mem_cons_self
  exact absurd (List.all_eq_true.1 h _ hmem) (by decide)

/-- Characters that are no minus signs can be added. -/
theorem append_of_isNoMinus (has : Single as) (h : bs.all isNoMinus = true) :
    Single (as ++ bs) := by
  refine has.append (of_isNoMinus h) fun _ hhead => ?_
  have hmem : '-' ∈ bs := List.mem_of_mem_head? hhead
  exact absurd (List.all_eq_true.1 h _ hmem) (by decide)

theorem isNoMinus_append (h : as.all isNoMinus = true) (hbs : Single bs) : Single (as ++ bs) := by
  refine (of_isNoMinus h).append hbs fun hlast => ?_
  have hmem : '-' ∈ as := List.mem_of_getLast? hlast
  exact absurd (List.all_eq_true.1 h _ hmem) (by decide)

/-- A sign with other characters behind it can be added where none stands in front. -/
theorem append_cons (has : Single as) (h : bs.all isNoMinus = true)
    (hlast : as.getLast? ≠ some '-') : Single (as ++ '-' :: bs) := by
  have hsign : Single ['-'] := List.isChain_singleton _
  exact has.append (hsign.append_of_isNoMinus h) fun hminus => absurd hminus hlast

end Single

/-! ### Tokens -/

theorem isNoMinus_of_isTokenChar (c : Char) (h : isTokenChar c = true) : isNoMinus c = true :=
  bne_iff_ne.2 fun heq => absurd (heq ▸ h) (by decide)

theorem isNoMinus_of_isFigure {figures : List Char} (h : figures.all isFigure = true) :
    figures.all isNoMinus = true ∧ '\'' ∉ figures := by
  rw [List.all_eq_true] at h
  refine ⟨List.all_eq_true.2 fun c hc => bne_iff_ne.2 fun heq => ?_, fun hmem => ?_⟩
  · exact absurd (heq ▸ h c hc) (by decide)
  · exact absurd (h _ hmem) (by decide)

namespace Emission

variable {e : Emission} {b : Binder}

/-- The token of a signed emission is a minus sign, with figures behind it if it is a literal. -/
theorem exists_figures (hsigned : e.isSigned b.mode = true) (hfault : e.fault? b = none) :
    ∃ figures, figures.all isFigure = true ∧ (e.token b).toList = '-' :: figures := by
  cases e with
  | word w =>
    obtain rfl : w = "-" := beq_iff_eq.1 hsigned
    exact ⟨[], rfl, by rw [token_word]; rfl⟩
  | value v =>
    rw [isSigned, Bool.and_eq_true, beq_iff_eq] at hsigned
    rcases token_value_cases b v with ⟨-, hliteral⟩ | ⟨hmode, -⟩ | ⟨-, ⟨cause, hliteral⟩, -⟩
    · exact Value.exists_signed_literal hliteral hsigned.2
    · cases hsigned.1.symm.trans hmode
    · simp [fault?, hsigned.1, Value.unfit?_of_error hliteral] at hfault
  | _ => cases hsigned

/-- An emission that is not signed shows no minus sign outside of quotes. -/
theorem clear_token_of_unsigned (hsigned : e.isSigned b.mode = false) (hsimple : e.isSimple = true)
    (hquote : e.Spells isNoQuote)
    (hnames : (∀ w, e ≠ .word w) → e.Spells fun c => isNoMinus c && isNoQuote c)
    (hname : ∀ s v, e = .parameter s v → isParameterName s = true) :
    Clear isNoMinus (e.token b).toList := by
  by_cases hopening : e = .opening
  · rw [hopening, token_opening]
    exact .of_notMem (by decide) (by decide)
  by_cases hclosing : e = .closing
  · rw [hclosing, token_closing]
    exact .of_notMem (by decide) (by decide)
  refine clear_token isNoMinus_of_isTokenChar hopening hclosing ?_ hname ?_
  · by_cases hword : ∃ w, e = .word w
    · obtain ⟨w, rfl⟩ := hword
      -- a word that is no sign itself holds none
      rw [isSigned] at hsigned
      rw [isSimple, hsigned, Bool.false_or] at hsimple
      exact List.all_eq_true.2 fun c hc => Bool.and_eq_true_iff.2
        ⟨List.all_eq_true.1 hsimple c hc, List.all_eq_true.1 hquote c hc⟩
    · exact hnames fun w hw => hword ⟨w, hw⟩
  · rintro v rfl hmode hnegative
    rw [isSigned, hmode, hnegative] at hsigned
    cases hsigned

/-- The token of an emission closes its quotes. -/
theorem isQuoting_token (hquote : e.Spells isNoQuote)
    (hname : ∀ s v, e = .parameter s v → isParameterName s = true) :
    isQuoting false (e.token b).toList = false := by
  by_cases hopening : e = .opening
  · rw [hopening, token_opening]
    decide
  by_cases hclosing : e = .closing
  · rw [hclosing, token_closing]
    decide
  have hclear : Clear (fun _ => true) (e.token b).toList :=
    clear_token (fun _ _ => rfl) hopening hclosing hquote hname fun _ _ _ _ => rfl
  exact hclear.closed

end Emission

/-! ### Drafts -/

namespace Draft

variable {d d' : Draft} {e : Emission} {es : List Emission}

/-- The text of the draft without what is quoted in it. -/
def shown (d : Draft) : List Char := unquoted d.text.toList

/-- A sign that is written next would meet another. -/
def EndsInMinus (d : Draft) : Prop := d.spacePending = false ∧ d.shown.getLast? = some '-'

theorem isQuoting_emit (h : d.emit e = (d', none))
    (hcloses : ∀ b, isQuoting false (e.token b).toList = false)
    (hd : isQuoting false d.text.toList = false) : isQuoting false d'.text.toList = false := by
  obtain ⟨gap, hgap, htext⟩ := exists_gap_emit h
  have hquote : '\'' ∉ gap := by rcases hgap with rfl | rfl <;> decide
  rw [htext, isQuoting_append, hd, isQuoting_append, isQuoting_of_notMem hquote]
  exact hcloses d.binder

theorem isQuoting_emitAll (h : d.emitAll es = (d', none))
    (hcloses : ∀ e ∈ es, ∀ b, isQuoting false (e.token b).toList = false)
    (hd : isQuoting false d.text.toList = false) : isQuoting false d'.text.toList = false := by
  induction es generalizing d with
  | nil =>
    simp only [emitAll_nil, Prod.mk.injEq, and_true] at h
    rwa [← h]
  | cons e es ih =>
    obtain ⟨d₁, he, hes⟩ := emitAll_cons_eq_none.1 h
    obtain ⟨hfirst, hrest⟩ := List.forall_mem_cons.1 hcloses
    exact ih hes hrest (isQuoting_emit he hfirst hd)

/-- What an emission adds outside of quotes: what its token shows, perhaps behind a space. -/
theorem exists_shown_emit (h : d.emit e = (d', none))
    (hd : isQuoting false d.text.toList = false) :
    ∃ gap, (gap = [] ∨ gap = [' '])
      ∧ d'.shown = d.shown ++ (gap ++ unquoted (e.token d.binder).toList) := by
  obtain ⟨gap, hgap, htext⟩ := exists_gap_emit h
  have hquote : '\'' ∉ gap := by rcases hgap with rfl | rfl <;> decide
  refine ⟨gap, hgap, ?_⟩
  rw [shown, htext, unquoted_append hd, unquoted_append (isQuoting_of_notMem hquote false),
    unquoted_of_notMem hquote, shown]

/-- A signed emission adds its sign, behind the space that is pending. -/
theorem exists_shown_emit_of_signed (h : d.emit e = (d', none))
    (hd : isQuoting false d.text.toList = false) (hsigned : e.isSigned d.binder.mode = true) :
    ∃ figures, figures.all isNoMinus = true
      ∧ d'.shown = d.shown ++ d.gap.toList ++ '-' :: figures := by
  have hfault : e.fault? d.binder = none := by rw [← snd_emit, h]
  obtain ⟨figures, hfigures, htoken⟩ := Emission.exists_figures hsigned hfault
  obtain ⟨hminus, hquote⟩ := isNoMinus_of_isFigure hfigures
  have hspace : e ≠ .space := by
    rintro rfl
    cases hsigned
  have hfirm : startsFirm (e.token d.binder) = true := by
    rw [startsFirm, htoken]
    rfl
  have hgap : '\'' ∉ d.gap.toList := by
    rw [gap]
    cases d.spacePending <;> decide
  have htail : '\'' ∉ d.gap.toList ++ '-' :: figures := by
    rw [List.mem_append, List.mem_cons, not_or, not_or]
    exact ⟨hgap, by decide, hquote⟩
  refine ⟨figures, hminus, ?_⟩
  rw [shown, text_of_emit h hspace, text_write_of_startsFirm d hfirm, String.toList_append,
    String.toList_append, htoken, List.append_assoc, unquoted_append hd, unquoted_of_notMem htail,
    shown, List.append_assoc]

/-- Where no space is asked for, the text does not end in a sign. -/
theorem getLast?_shown_of_refusesSpace (hd : isQuoting false d.text.toList = false)
    (h : refusesSpace d.text = true) : d.shown.getLast? ≠ some '-' := by
  rw [refusesSpace, String.back?_eq] at h
  rw [shown]
  rcases List.eq_nil_or_concat d.text.toList with hnil | ⟨cs, c, hcs⟩
  · rw [hnil]
    decide
  · rw [List.concat_eq_append] at hcs
    rw [hcs, List.getLast?_concat] at h
    have hc : c = ' ' ∨ c = '(' := by simpa only [Bool.or_eq_true, beq_iff_eq] using h
    have hquote : '\'' ∉ [c] := by rcases hc with rfl | rfl <;> decide
    have hclosed : isQuoting false cs = false := by
      rw [hcs, isQuoting_append, isQuoting_of_notMem hquote] at hd
      exact hd
    rw [hcs, unquoted_append hclosed, unquoted_of_notMem hquote, List.getLast?_concat]
    rcases hc with rfl | rfl <;> decide

/-- Behind an emission that reads apart from what follows, unless it is a minus sign, a sign meets
no other. -/
theorem not_endsInMinus_of_emit (h : d.emit e = (d', none))
    (hd' : isQuoting false d'.text.toList = false) (hopen : e.isOpen = true)
    (hminus : e ≠ .word "-") : ¬ d'.EndsInMinus := by
  rintro ⟨hpending, hlast⟩
  refine getLast?_shown_of_refusesSpace hd' ?_ hlast
  obtain ⟨gap, -, htext⟩ := exists_gap_emit h
  cases e with
  | space =>
    -- a space is pending, or it was refused
    simp only [emit, Prod.mk.injEq, and_true] at h
    rw [← h, space] at hpending ⊢
    split at hpending
    · next hrefuses => rwa [if_pos hrefuses]
    · cases hpending
  | opening =>
    rw [refusesSpace, String.back?_eq, htext, Emission.token_opening]
    simp
  | word w =>
    have hw : isSeparator w = true := by
      rw [Emission.isOpen, Bool.or_eq_true, beq_iff_eq] at hopen
      exact hopen.resolve_right fun heq => hminus (congrArg Emission.word heq)
    simp only [isSeparator, List.contains_eq_mem, decide_eq_true_eq, List.mem_cons,
      List.not_mem_nil, or_false] at hw
    rw [refusesSpace, String.back?_eq, htext, Emission.token_word]
    rcases hw with rfl | rfl | rfl <;> simp
  | _ => cases hopen

/-- One emission keeps signs apart, if it is not a sign behind another one. -/
theorem single_emit (h : d.emit e = (d', none)) (hd : isQuoting false d.text.toList = false)
    (hclear : e.isSigned d.binder.mode = false → Clear isNoMinus (e.token d.binder).toList)
    (hfit : e.isSigned d.binder.mode = true → ¬ d.EndsInMinus) (hsingle : Single d.shown) :
    Single d'.shown := by
  cases hsigned : e.isSigned d.binder.mode with
  | false =>
    obtain ⟨gap, hgap, hshown⟩ := exists_shown_emit h hd
    rw [hshown]
    refine hsingle.append_of_isNoMinus ?_
    rw [List.all_append, (hclear hsigned).all]
    rcases hgap with rfl | rfl <;> rfl
  | true =>
    obtain ⟨figures, hfigures, hshown⟩ := exists_shown_emit_of_signed h hd hsigned
    have hlast := hfit hsigned
    rw [hshown, gap]
    cases hpending : d.spacePending with
    | false =>
      refine Single.append_cons (by simpa using hsingle) hfigures ?_
      rw [EndsInMinus, not_and] at hlast
      simpa using hlast hpending
    | true =>
      refine Single.append_cons (hsingle.append_of_isNoMinus (by decide)) hfigures ?_
      simp

/-- Emissions of a guarded layout keep signs apart. -/
theorem single_emitAll {mode : Mode} (h : d.emitAll es = (d', none))
    (hmode : d.binder.mode = mode) (hchain : es.IsChain Emission.Apart)
    (hguarded : Emission.Guarded mode es)
    (hcloses : ∀ e ∈ es, ∀ b, isQuoting false (e.token b).toList = false)
    (hclear : ∀ e ∈ es, ∀ b : Binder, e.isSigned b.mode = false →
      Clear isNoMinus (e.token b).toList)
    (hd : isQuoting false d.text.toList = false)
    (hfit : ∀ e ∈ es.head?, e.isSigned mode = true → ¬ d.EndsInMinus)
    (hsingle : Single d.shown) : Single d'.shown := by
  induction es generalizing d with
  | nil =>
    simp only [emitAll_nil, Prod.mk.injEq, and_true] at h
    rwa [← h]
  | cons e es ih =>
    obtain ⟨d₁, he, hes⟩ := emitAll_cons_eq_none.1 h
    obtain ⟨hclosesFirst, hclosesRest⟩ := List.forall_mem_cons.1 hcloses
    obtain ⟨hclearFirst, hclearRest⟩ := List.forall_mem_cons.1 hclear
    have hd₁ := isQuoting_emit he hclosesFirst hd
    have hmode₁ : d₁.binder.mode = mode := by
      rw [binder_of_emit he, (d.binder.grows_after _).mode_eq, hmode]
    refine ih hes hmode₁ (List.isChain_cons.1 hchain).2
      ⟨(List.isChain_cons.1 hguarded.apart).2, (List.forall_mem_cons.1 hguarded.simple).2⟩
      hclosesRest hclearRest hd₁ ?_ ?_
    · -- a sign stands behind a space, a parenthesis or a separator
      intro f hf hsigned
      have hnotMinus : e ≠ .word "-" := fun heq => by
        rw [(List.isChain_cons.1 hguarded.apart).1 f hf heq] at hsigned
        cases hsigned
      have hopen : e.isOpen = true := by
        refine ((List.isChain_cons.1 hchain).1 f hf).resolve_right fun hclosing => ?_
        cases f with
        | word w =>
          obtain rfl : w = "-" := beq_iff_eq.1 hsigned
          cases hclosing
        | value v => cases hclosing
        | _ => cases hsigned
      exact not_endsInMinus_of_emit he hd₁ hopen hnotMinus
    · refine single_emit he hd (hclearFirst d.binder) ?_ hsingle
      rw [hmode]
      exact hfit e rfl

/-- A sign that directly follows a minus sign makes two signs in a row. -/
theorem infix_of_emitAll {mode : Mode} (h : d.emitAll es = (d', none))
    (hmode : d.binder.mode = mode) (hsimple : ∀ e ∈ es, e.isSimple = true)
    (hguarded : ¬ Emission.Guarded mode es)
    (hcloses : ∀ e ∈ es, ∀ b, isQuoting false (e.token b).toList = false)
    (hd : isQuoting false d.text.toList = false) : ['-', '-'] <:+: d'.shown := by
  have hchain : ¬ es.IsChain fun e f => e = .word "-" → f.isSigned mode = false :=
    fun hchain => hguarded ⟨hchain, hsimple⟩
  rw [List.isChain_iff_forall_rel_of_append_cons_cons] at hchain
  push Not at hchain
  obtain ⟨e, f, as, bs, rfl, rfl, hsigned⟩ := hchain
  rw [ne_eq, Bool.not_eq_false] at hsigned
  obtain ⟨d₁, has, hrest⟩ := emitAll_append_eq_none.1 h
  obtain ⟨d₂, hminus, hrest⟩ := emitAll_cons_eq_none.1 hrest
  obtain ⟨d₃, hsign, hbs⟩ := emitAll_cons_eq_none.1 hrest
  obtain ⟨hclosesFirst, hcloses⟩ := List.forall_mem_append.1 hcloses
  have hd₁ := isQuoting_emitAll has hclosesFirst hd
  have hd₂ := isQuoting_emit hminus (List.forall_mem_cons.1 hcloses).1 hd₁
  obtain ⟨gap, -, hshown₂⟩ := exists_shown_emit hminus hd₁
  -- no space is pending behind the first sign
  have hgap : d₂.gap = "" := by
    rw [emit, Prod.mk.injEq] at hminus
    rw [← hminus.1]
    rfl
  have hmode₂ : d₂.binder.mode = mode := by
    rw [binder_of_emit hminus, (d₁.binder.grows_after _).mode_eq, (binder_of_emitAll has).1,
      (d.binder.grows_after _).mode_eq, hmode]
  rw [← hmode₂] at hsigned
  obtain ⟨figures, -, hshown₃⟩ := exists_shown_emit_of_signed hsign hd₂ hsigned
  obtain ⟨t, htext⟩ := d₃.exists_text_emitAll bs
  have hprefix : d₃.shown <+: d'.shown := by
    rw [hbs] at htext
    exact prefix_unquoted ⟨t.toList, by rw [htext, String.toList_append]⟩
  refine List.IsInfix.trans ?_ hprefix.isInfix
  rw [hshown₃, hgap, hshown₂, Emission.token_word]
  exact ⟨d₁.shown ++ gap, figures, by simp [unquoted, outside]⟩

end Draft

/-! ### Rendered queries -/

/-- What holds of the characters of the names in a layout holds of those that an emission spells
unless it is a word. -/
theorem Written.spells_of_not_word {p : Char → Bool} (hdot : p '.' = true) {es : List Emission}
    {ns : List Expr} (h : Written (fun s => s.toList.all p = true) es ns) :
    ∀ e ∈ es, (∀ w, e ≠ .word w) → e.Spells p := by
  intro e he hword
  cases h.pieces e he with
  | value hnames => exact hnames
  | name hname => exact hname
  | path hnames => exact all_pathText hdot hnames
  | word _ => exact absurd rfl (hword _)
  | _ => trivial

/-- Cutting blanks off at the ends takes away no signs. -/
theorem infix_unquoted_trim {cs : List Char} (h : isQuoting false cs = false) :
    ['-', '-'] <:+: unquoted (trim cs) ↔ ['-', '-'] <:+: unquoted cs := by
  obtain ⟨-, as, bs, has, hbs, heq⟩ := exists_unquoted_trim h
  have hminus : ∀ {ds : List Char}, (∀ c ∈ ds, isBlank c = true) → ds.all isNoMinus = true :=
    fun hds => List.all_eq_true.2 fun c hc => bne_iff_ne.2 fun heq =>
      absurd (heq ▸ hds c hc) (by decide)
  constructor
  · intro hinfix
    rw [heq]
    exact hinfix.trans (List.infix_append' _ _ _)
  · rw [← not_imp_not, ← single_iff, ← single_iff, heq]
    intro hsingle
    exact Single.isNoMinus_append (hminus has) (hsingle.append_of_isNoMinus (hminus hbs))

/-- Outside of quotes two minus signs stand side by side in a rendered query exactly where literals
are written inline and some negation has for its operand a negative literal that stands alone in a
conjunction or disjunction.  The names are asked to hold neither minus signs nor quotes. -/
theorem Query.opensComment_iff {q : Query} {supplied : Option Bindings} {mode : Mode}
    {r : Rendered} (hnames : ∀ s ∈ q.names, '-' ∉ s.toList ∧ '\'' ∉ s.toList)
    (h : q.render .standard supplied mode = .ok r) :
    ['-', '-'] <:+: unquoted r.text.toList
      ↔ mode = .inline ∧ ∃ v, .negate v ∈ q.nodes ∧ v.HidesMinus := by
  obtain ⟨d, hemit, htext, hparams⟩ := Query.exists_draft_of_render h
  have hmode : (Draft.start (q.binder supplied mode)).binder.mode = mode := q.mode_binder _ _
  have hwritten : Written (fun s => s.toList.all (fun c => isNoMinus c && isNoQuote c) = true)
      (Dialect.standard.write q.part) q.nodes :=
    Query.written Dialect.standard_hasWords q fun s hs => List.all_eq_true.2 fun c hc =>
      Bool.and_eq_true_iff.2 ⟨bne_iff_ne.2 fun heq => (hnames s hs).1 (heq ▸ hc),
        bne_iff_ne.2 fun heq => (hnames s hs).2 (heq ▸ hc)⟩
  have hquoteless : Written (fun s => s.toList.all isNoQuote = true)
      (Dialect.standard.write q.part) q.nodes :=
    Query.written Dialect.standard_hasWords q fun s hs => quote_notMem_iff.1 (hnames s hs).2
  have hquotes := hquoteless.spells_of_mem
    (fun c hc => bne_iff_ne.2 fun heq => absurd (heq ▸ hc) (by decide)) rfl rfl
  have hcloses : ∀ e ∈ Dialect.standard.write q.part, ∀ b,
      isQuoting false (e.token b).toList = false := fun e he b =>
    Emission.isQuoting_token (hquotes e he) fun s v heq => hparams s v (heq ▸ he)
  have hclosed : isQuoting false d.text.toList = false :=
    Draft.isQuoting_emitAll hemit hcloses rfl
  have hwritable : ∀ n ∈ q.nodes, n.IsWritable := by
    have hfaults := Draft.snd_emitAll (Dialect.standard.write q.part)
      (Draft.start (q.binder supplied mode))
    rw [hemit, Query.findSome?_write] at hfaults
    exact Query.isWritable_of_mem_nodes hfaults.symm
  -- where literals are not written inline, no sign meets another
  have hbound : Emission.Guarded .placeholder (Dialect.standard.write q.part) :=
    (Query.guarded_write hwritable).2 fun n _ hn => nomatch hn.1
  have hexposed : Emission.Guarded mode (Dialect.standard.write q.part)
      ↔ ¬ (mode = .inline ∧ ∃ v, .negate v ∈ q.nodes ∧ v.HidesMinus) := by
    rw [Query.guarded_write hwritable]
    constructor
    · rintro hnodes ⟨hinline, v, hv, hhides⟩
      exact hnodes _ hv ⟨hinline, v, rfl, hhides⟩
    · rintro hnone n hn ⟨hinline, v, rfl, hhides⟩
      exact hnone ⟨hinline, v, hn, hhides⟩
  rw [htext, infix_unquoted_trim hclosed, ← not_iff_not, ← hexposed, ← single_iff]
  constructor
  · intro hsingle
    by_contra hguarded
    have hmet := Draft.infix_of_emitAll hemit hmode hbound.simple hguarded hcloses rfl
    exact single_iff.1 hsingle hmet
  · intro hguarded
    refine Draft.single_emitAll hemit hmode hwritten.isChain hguarded hcloses ?_ rfl ?_ ?_
    · exact fun e he b hsigned => Emission.clear_token_of_unsigned hsigned (hbound.simple e he)
        (hquotes e he) (hwritten.spells_of_not_word (p := fun c => isNoMinus c && isNoQuote c)
          rfl e he) fun s v heq => hparams s v (heq ▸ he)
    · rintro e - - ⟨-, hlast⟩
      cases hlast
    · exact List.isChain_nil

/-- A difference with a negative literal, a negated difference that begins with a negation, and a
text with two signs in it: none of them opens a comment. -/
def booksByBalance : Query := .select {
  resultType := "Book"
  distinct := false
  items := [.entity ⟨"Book", "b"⟩]
  sources := [⟨⟨"Book", "b"⟩, []⟩]
  filter := some (.comparison .eq
    (.arithmetic .sub (.path ⟨["b", "due"]⟩) (.literal (.int (-3))))
    (.negate (.arithmetic .sub (.negate (.literal (.int (-1)))) (.literal (.string "--")))))
  groupBy := []
  having := none
  orderBy := [] }

theorem opensComment_booksByBalance :
    (∀ s ∈ booksByBalance.names, '-' ∉ s.toList ∧ '\'' ∉ s.toList)
      ∧ ∃ r, booksByBalance.render .standard none .inline = .ok r
        ∧ ¬ ['-', '-'] <:+: unquoted r.text.toList := by
  have hnames : ∀ s ∈ booksByBalance.names, '-' ∉ s.toList ∧ '\'' ∉ s.toList := by
    decide +kernel
  obtain ⟨r, hr⟩ := exists_of_isOk (x := booksByBalance.render .standard none .inline)
    (by decide +kernel)
  refine ⟨hnames, r, hr, ?_⟩
  rw [Query.opensComment_iff hnames hr]
  rintro ⟨-, v, hv, hhides⟩
  simp [booksByBalance, Query.nodes, Select.nodes, nodesOfList, nodesOfSources, nodesOfJoins,
    nodesOfOption, nodesOfKeys, Expr.nodes] at hv
  rcases hv with rfl | rfl <;> cases hhides

/-- What is negated is a conjunction of one literal. -/
def hiddenDebt : Query := .select {
  resultType := "Book"
  distinct := false
  items := [.negate (.logical .and [.literal (.int (-5))])]
  sources := [⟨⟨"Book", "b"⟩, []⟩]
  filter := none
  groupBy := []
  having := none
  orderBy := [] }

/-- With names that are identifiers, the rest of a query can end up in a comment. -/
theorem hiddenDebt_opensComment :
    (∀ s ∈ hiddenDebt.names, IsIdentifier s)
      ∧ ∃ r, hiddenDebt.render .standard none .inline = .ok r
        ∧ r.text = "SELECT --5 FROM Book AS b" ∧ ['-', '-'] <:+: unquoted r.text.toList := by
  have htext : (hiddenDebt.render .standard none .inline).toOption.map Rendered.text
      = some "SELECT --5 FROM Book AS b" := by decide +kernel
  cases hr : hiddenDebt.render .standard none .inline with
  | error fault =>
    rw [hr] at htext
    cases htext
  | ok r =>
    rw [hr] at htext
    have htext : r.text = "SELECT --5 FROM Book AS b" := Option.some.inj htext
    refine ⟨by decide +kernel, r, rfl, htext, ?_⟩
    rw [htext]
    decide +kernel

end PersistenceQuery
