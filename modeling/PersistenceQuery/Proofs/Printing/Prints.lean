import PersistenceQuery.Proofs.Printing.Printer
import PersistenceQuery.Proofs.Rendering.Outcome
import PersistenceQuery.Proofs.Rendering.Spacing

/-!
# Layouts that print a text

A layout prints a text if it adds that text to every draft, behind a space if one is pending.  The
text is firm, so it takes the space, and whether a space follows is for the next token to say: the
draft in front matters for nothing else.  This is kept by all ways in which layouts are put
together, and the text is put together from theirs.

## Main definitions

* `Prints` — a layout and the text that it adds to a draft.
* `Fills` — the same between parentheses, where the text may be empty.

## Main results

* `Prints.spaced`, `Prints.separated`, `Prints.keyword`, `Prints.operand`, `Prints.call` — what is
  printed by layouts that are put together.
* `Prints.text_of_rendered` — the text of a layout that is rendered is the one it prints.
-/

namespace PersistenceQuery

open Text Draft

/-- Where the emissions are written to the end, with literals inline, they add the text, behind a
space if one is pending. -/
def Prints (es : List Emission) (text : String) : Prop :=
  ∀ d d' : Draft, d.binder.mode = .inline → d.emitAll es = (d', none) →
    isFirm text = true ∧ d'.text = d.text ++ d.gap ++ text

/-- Where the emissions are written to the end behind a parenthesis, with literals inline, they add
the text. -/
def Fills (es : List Emission) (text : String) : Prop :=
  ∀ d d' : Draft, d.binder.mode = .inline → d.spacePending = false →
    d.emitAll es = (d', none) → d'.text = d.text ++ text

/-! ### One emission -/

/-- The mode stays as it is. -/
theorem Draft.mode_of_emitAll {d d' : Draft} {es : List Emission}
    (h : d.emitAll es = (d', none)) : d'.binder.mode = d.binder.mode := by
  rw [(binder_of_emitAll h).1, (d.binder.grows_after _).mode_eq]

theorem Draft.mode_of_emit {d d' : Draft} {e : Emission} (h : d.emit e = (d', none)) :
    d'.binder.mode = d.binder.mode := by
  have hone : d.emitAll [e] = (d', none) := emitAll_cons_eq_none.2 ⟨d', h, rfl⟩
  exact Draft.mode_of_emitAll hone

/-- A space is asked for behind a firm text, and it is pending then. -/
theorem Draft.space_of_endsFirm {d d' : Draft} (htext : endsFirm d.text = true)
    (h : d.emit .space = (d', none)) : d'.text = d.text ∧ d'.gap = " " := by
  rw [emit, space, refusesSpace_of_endsFirm htext, Prod.mk.injEq] at h
  rw [← h.1]
  exact ⟨rfl, rfl⟩

namespace Prints

variable {es as bs : List Emission} {t u : String}

/-- An emission with a token that is known and firm. -/
theorem single {e : Emission} (hspace : e ≠ .space)
    (h : ∀ d d' : Draft, d.binder.mode = .inline → d.emit e = (d', none) →
      e.token d.binder = t ∧ isFirm t = true) : Prints [e] t := by
  intro d d' hmode hemit
  obtain ⟨d₁, he, hnil⟩ := emitAll_cons_eq_none.1 hemit
  simp only [emitAll_nil, Prod.mk.injEq, and_true] at hnil
  subst hnil
  obtain ⟨htoken, hfirm⟩ := h d d₁ hmode he
  refine ⟨hfirm, ?_⟩
  rw [eq_of_emit he, if_neg hspace, htoken]
  exact text_write_of_startsFirm d (isFirm_iff.1 hfirm).1

theorem word {w : String} (h : isFirm w = true) : Prints [.word w] w :=
  single nofun fun _ _ _ _ => ⟨rfl, h⟩

theorem name {s : String} (h : isFirm s = true) : Prints [.name s] s :=
  single nofun fun _ _ _ _ => ⟨rfl, h⟩

theorem quoted (s : String) : Prints [.quoted s] (quote s) :=
  single nofun fun _ _ _ _ => ⟨rfl, isFirm_quote s⟩

/-- A value is written inline as its literal. -/
theorem value {v : Value} (h : ∀ s ∈ v.names, isSolid s = true) : Prints [.value v] v.printed := by
  refine single nofun fun d d' hmode hemit => ?_
  rw [emit] at hemit
  rw [Emission.token]
  rcases hr : d.binder.register v with ⟨fault | token, b⟩
  · rw [hr] at hemit
    cases hemit
  · rcases Binder.register_eq_ok hr with ⟨-, hliteral, -⟩ | ⟨hplaceholder, -⟩
    · have hprinted : v.printed = token := by rw [Value.printed, hliteral]
      exact ⟨hprinted.symm, hprinted ▸ Value.isFirm_literal hliteral h⟩
    · rw [hmode] at hplaceholder
      cases hplaceholder

/-- A named parameter is written as its placeholder. -/
theorem parameter {s : String} (h : isParameterName s = true) (embedded : Option Value) :
    Prints [.parameter s embedded] (placeholder s) := by
  refine single nofun fun d d' _ hemit => ⟨?_, isFirm_placeholder h⟩
  rw [emit, Binder.bind] at hemit
  rw [Emission.token, Binder.bind]
  cases hvalue : d.binder.valueFor s embedded with
  | none =>
    rw [hvalue] at hemit
    cases hemit
  | some v => rfl

/-- Where nothing can be written, every text is as good as any other. -/
theorem stop (fault : Fault) (t : String) : Prints [.stop fault] t := by
  intro d d' _ hemit
  cases hemit

/-! ### Layouts one after the other -/

/-- Behind a layout stands a space, and another layout. -/
theorem spaced (has : Prints as t) (hbs : Prints bs u) :
    Prints (as ++ .space :: bs) (t ++ behind u) := by
  intro d d' hmode hemit
  obtain ⟨d₁, ha, hrest⟩ := emitAll_append_eq_none.1 hemit
  obtain ⟨d₂, hspace, hb⟩ := emitAll_cons_eq_none.1 hrest
  obtain ⟨ht, htext⟩ := has d d₁ hmode ha
  have hends : endsFirm d₁.text = true := by
    rw [htext]
    exact endsFirm_append _ (isFirm_iff.1 ht).2
  obtain ⟨hsame, hgap⟩ := Draft.space_of_endsFirm hends hspace
  have hmode₂ : d₂.binder.mode = .inline := by
    rw [Draft.mode_of_emit hspace, Draft.mode_of_emitAll ha, hmode]
  obtain ⟨hu, htext'⟩ := hbs d₂ d' hmode₂ hb
  rw [behind, ← String.append_assoc]
  refine ⟨isFirm_append ht hu " ", ?_⟩
  rw [htext', hgap, hsame, htext]
  simp only [String.append_assoc]

/-- Behind a layout stands a separator, which brings its own spaces, and another layout. -/
theorem separated {w : String} (hw : standsClose w = true) (has : Prints as t)
    (hbs : Prints bs u) : Prints (as ++ .word w :: bs) (t ++ w ++ u) := by
  intro d d' hmode hemit
  obtain ⟨d₁, ha, hrest⟩ := emitAll_append_eq_none.1 hemit
  obtain ⟨d₂, hword, hb⟩ := emitAll_cons_eq_none.1 hrest
  have hmode₂ : d₂.binder.mode = .inline := by
    rw [Draft.mode_of_emit hword, Draft.mode_of_emitAll ha, hmode]
  obtain ⟨ht, htext⟩ := has d d₁ hmode ha
  obtain ⟨hu, htext'⟩ := hbs d₂ d' hmode₂ hb
  refine ⟨isFirm_append ht hu w, ?_⟩
  rw [emit, Prod.mk.injEq] at hword
  have hgap : d₂.gap = "" := by
    rw [← hword.1]
    rfl
  rw [htext', hgap, ← hword.1, text_write_of_standsClose d₁ hw, htext]
  simp only [String.append_assoc, String.append_empty]

/-- A word directly in front of a layout. -/
theorem adjoined {w : String} (hw : startsFirm w = true) (hes : Prints es t) :
    Prints (.word w :: es) (w ++ t) := by
  intro d d' hmode hemit
  obtain ⟨d₁, hword, hrest⟩ := emitAll_cons_eq_none.1 hemit
  have hmode₁ : d₁.binder.mode = .inline := by rw [Draft.mode_of_emit hword, hmode]
  obtain ⟨ht, htext⟩ := hes d₁ d' hmode₁ hrest
  refine ⟨isFirm_iff.2 ⟨startsFirm_append hw t, endsFirm_append w (isFirm_iff.1 ht).2⟩, ?_⟩
  rw [emit, Prod.mk.injEq] at hword
  have hgap : d₁.gap = "" := by
    rw [← hword.1]
    rfl
  rw [htext, hgap, ← hword.1, text_write_of_startsFirm d hw]
  simp only [String.append_assoc, String.append_empty]

/-- A space that is asked for behind a layout is not written with it. -/
theorem trailing (hes : Prints es t) : Prints (es ++ [.space]) t := by
  intro d d' hmode hemit
  obtain ⟨d₁, he, hrest⟩ := emitAll_append_eq_none.1 hemit
  obtain ⟨d₂, hspace, hnil⟩ := emitAll_cons_eq_none.1 hrest
  simp only [emitAll_nil, Prod.mk.injEq, and_true] at hnil
  subst hnil
  obtain ⟨ht, htext⟩ := hes d d₁ hmode he
  have hends : endsFirm d₁.text = true := by
    rw [htext]
    exact endsFirm_append _ (isFirm_iff.1 ht).2
  exact ⟨ht, (Draft.space_of_endsFirm hends hspace).1.trans htext⟩

/-! ### Parentheses -/

theorem fills (hes : Prints es t) : Fills es t := by
  intro d d' hmode hpending hemit
  have hgap : d.gap = "" := by rw [gap, hpending]; rfl
  rw [(hes d d' hmode hemit).2, hgap, String.append_empty]

end Prints

theorem Fills.nothing : Fills [] "" := by
  intro d d' _ _ hemit
  simp only [emitAll_nil, Prod.mk.injEq, and_true] at hemit
  rw [← hemit, String.append_empty]

namespace Prints

variable {es as bs : List Emission} {t u : String}

theorem parenthesized (hes : Fills es t) :
    Prints (Emission.parenthesized es) (inParentheses t) := by
  intro d d' hmode hemit
  obtain ⟨d₁, hopening, hrest⟩ := emitAll_cons_eq_none.1 hemit
  obtain ⟨d₂, hinner, hlast⟩ := emitAll_append_eq_none.1 hrest
  obtain ⟨d₃, hclosing, hnil⟩ := emitAll_cons_eq_none.1 hlast
  simp only [emitAll_nil, Prod.mk.injEq, and_true] at hnil
  subst hnil
  refine ⟨isFirm_parenthesized t, ?_⟩
  have hmode₁ : d₁.binder.mode = .inline := by rw [Draft.mode_of_emit hopening, hmode]
  rw [emit, Prod.mk.injEq] at hopening
  rw [emit, Prod.mk.injEq] at hclosing
  have hpending : d₁.spacePending = false := by
    rw [← hopening.1]
    rfl
  have hopened : d₁.text = d.text ++ d.gap ++ "(" := by
    rw [← hopening.1]
    exact text_write_of_startsFirm d (by decide)
  have hclosed : d₃.text = d₂.text ++ ")" := by
    rw [← hclosing.1]
    exact text_write_of_standsClose { d₂ with unclosed := d₂.unclosed - 1 } (by decide)
  rw [hclosed, hes d₁ d₂ hmode₁ hpending hinner, hopened, inParentheses]
  simp only [String.append_assoc]

theorem operand {parent child : Strength} {side : Side} (hes : Prints es t) :
    Prints (Emission.operand parent side child es) (operandText parent side child t) := by
  unfold Emission.operand operandText
  split
  · exact parenthesized hes.fills
  · exact hes

/-! ### Keywords -/

/-- A word with a space behind it. -/
theorem lead {w : String} (hw : isFirm w = true) (hes : Prints es t) :
    Prints (.word w :: .space :: es) (w ++ behind t) :=
  (Prints.word hw).spaced hes

/-- A word with a space behind it, which may be left out. -/
theorem preceded {w : String} (hw : isFirm w = true) (present : Bool) (hes : Prints es t) :
    Prints ((if present then [.word w, .space] else []) ++ es)
      (PersistenceQuery.preceded present w t) := by
  cases present with
  | false => exact hes
  | true => exact hes.lead hw

theorem keyword {w : String} (hw : isFirm w = true) (has : Prints as t) (hbs : Prints bs u) :
    Prints (as ++ Emission.keyword w ++ bs) (t ++ surrounded w ++ u) := by
  have h := has.spaced (hbs.lead hw)
  have htext : t ++ behind (w ++ behind u) = t ++ surrounded w ++ u := by
    simp only [behind, surrounded, String.append_assoc]
  rw [htext] at h
  rwa [List.append_assoc]

/-- A keyword behind which nothing follows. -/
theorem ending {w : String} (hw : isFirm w = true) (has : Prints as t) :
    Prints (as ++ Emission.keyword w) (t ++ behind w) := by
  have h := (has.spaced (Prints.word hw)).trailing
  rwa [List.append_assoc] at h

/-- An optional expression behind a space. -/
theorem option {D : Dialect} {o : Option Expr} (has : Prints as t)
    (ho : ∀ e, o = some e → Prints (D.write (.expr e)) e.printed) :
    Prints (as ++ layoutOfOption D o [.space]) (t ++ printedOption " " o) := by
  cases o with
  | none => simpa [layoutOfOption, printedOption] using has
  | some e => simpa [layoutOfOption, printedOption, behind] using has.spaced (ho e rfl)

/-- An optional expression behind a keyword. -/
theorem keywordOption {D : Dialect} {o : Option Expr} {w : String} (hw : isFirm w = true)
    (has : Prints as t) (ho : ∀ e, o = some e → Prints (D.write (.expr e)) e.printed) :
    Prints (as ++ layoutOfOption D o (Emission.keyword w))
      (t ++ printedOption (surrounded w) o) := by
  cases o with
  | none => simpa [layoutOfOption, printedOption] using has
  | some e =>
    simpa [layoutOfOption, printedOption, String.append_assoc] using has.keyword hw (ho e rfl)

end Prints

/-! ### Lists -/

/-- Layouts that each print a text. -/
abbrev PrintsItems : List (List Emission) → List String → Prop := List.Forall₂ Prints

namespace Prints

variable {es as bs : List Emission} {ls : List (List Emission)} {t u : String} {ts : List String}

/-- Layouts with a separator between them print their texts with the separator between them. -/
theorem separatedItems {w : String} (hw : standsClose w = true) (hls : PrintsItems ls ts)
    (hne : ls ≠ []) : Prints (Emission.separated w ls) (w.intercalate ts) := by
  induction hls with
  | nil => exact absurd rfl hne
  | @cons es t ls ts hes hls ih =>
    cases hls with
    | nil => simpa [Emission.separated_cons] using hes
    | @cons fs u ls ts hfs hls =>
      have h := hes.separated hw (ih (List.cons_ne_nil _ _))
      rw [String.intercalate_cons_cons]
      simpa [Emission.separated_cons] using h

end Prints

/-- What stands between the parentheses of a call. -/
theorem Fills.items {ls : List (List Emission)} {ts : List String} (hls : PrintsItems ls ts) :
    Fills (Emission.separated ", " ls) (commas ts) := by
  cases hls with
  | nil => exact .nothing
  | cons hes hls =>
    exact (Prints.separatedItems (by decide) (.cons hes hls) (List.cons_ne_nil _ _)).fills

namespace Prints

variable {es as bs : List Emission} {ls : List (List Emission)} {t u : String} {ts : List String}

theorem call {w : String} (hw : startsFirm w = true) (hls : PrintsItems ls ts) :
    Prints (Emission.call w ls) (called w ts) :=
  (Prints.parenthesized (Fills.items hls)).adjoined hw

/-- A list behind a keyword. -/
theorem keywordItems {w : String} (hw : isFirm w = true) (has : Prints as t)
    (hls : PrintsItems ls ts) (hne : ls ≠ []) :
    Prints (as ++ Emission.keyword w ++ Emission.separated ", " ls)
      (t ++ surrounded w ++ commas ts) :=
  has.keyword hw (separatedItems (by decide) hls hne)

/-- A list behind a keyword, which is left out with an empty list. -/
theorem clause {α : Type} {w : String} (hw : isFirm w = true) (xs : List α)
    (hne : xs ≠ [] → ls ≠ []) (has : Prints as t) (hls : PrintsItems ls ts) :
    Prints (as ++ if xs.isEmpty then [] else Emission.keyword w ++ Emission.separated ", " ls)
      (t ++ if xs.isEmpty then "" else surrounded w ++ commas ts) := by
  cases xs with
  | nil => simpa using has
  | cons x xs =>
    simpa [String.append_assoc] using has.keywordItems hw hls (hne (List.cons_ne_nil x xs))

/-! ### Rules -/

/-- A part by the rule of a dialect: whatever the keyword, or nothing at all. -/
theorem accept {D : Dialect} {p : Part} {layout : String → List Emission}
    (h : ∀ w, Prints (layout w) t) : Prints (D.accept p layout) t := by
  rcases D.accept_cases p layout with ⟨fault, hfault⟩ | ⟨w, hw⟩
  · rw [hfault]
    exact stop fault t
  · rw [hw]
    exact h w

/-- A call by the rule of the language: with the keyword of its kind, or not at all. -/
theorem acceptCall {p : Part} {layout : String → List Emission} {kind : String}
    (hform : p.form = .call kind)
    (h : startsFirm (callKeyword kind) = true → Prints (layout (callKeyword kind)) t) :
    Prints (Dialect.standard.accept p layout) t := by
  have hkind : p.kind = kind := by rw [Part.kind, hform, Form.kind]
  rw [Dialect.accept, hkind]
  cases hrule : Dialect.standard.rule? kind with
  | none => exact stop _ t
  | some r =>
    show Prints (r.accept p layout) t
    rw [Rule.accept]
    split
    · next hfits =>
      rw [Rule.fits, hform, beq_iff_eq] at hfits
      cases r with
      | construct c => cases hfits
      | call k w =>
        obtain rfl : k = kind := by simpa [Rule.form] using hfits
        have hmem : (k, w) ∈ callKeywords :=
          Rule.mem_callKeywords (Dialect.rule?_ofRules hrule).1
        have hall : ∀ c ∈ callKeywords, callKeyword c.1 = c.2 ∧ isFirm c.2 = true := by decide
        obtain ⟨hword, hfirm⟩ := hall _ hmem
        have hlayout := h (isFirm_iff.1 (hword ▸ hfirm)).1
        rw [hword] at hlayout
        exact hlayout
    · exact stop _ t

/-! ### Rendered texts -/

/-- The text of a layout that is rendered is the one it prints. -/
theorem text_of_rendered (hes : Prints es t) {b : Binder} {r : Rendered}
    (hmode : b.mode = .inline) (h : b.rendered es = .ok r) : r.text = t := by
  obtain ⟨d, hemit, hfinish⟩ := Binder.rendered_eq_ok.1 h
  obtain ⟨-, -, htext, -⟩ := Draft.finish_eq_ok.1 hfinish
  obtain ⟨hfirm, hprinted⟩ := hes (Draft.start b) d hmode hemit
  have hempty : (Draft.start b).text ++ (Draft.start b).gap = "" := rfl
  rw [hempty, String.empty_append] at hprinted
  rw [htext, hprinted, trim_of_isFirm hfirm, String.ofList_toList]

end Prints

end PersistenceQuery
