import PersistenceQuery.Proofs.Binding.Calls
import PersistenceQuery.Proofs.Rendering.Spelled

/-!
# Layouts that are written for certain

Where every parameter has a value and there are no literals, nothing can fail on the way, and the
lexemes of the text do not depend on the binder.

## Main definitions

* `Emission.IsSettled` — the emission cannot fail, and its token is known.
* `Emission.lexemes` — the lexemes of such an emission.

## Main results

* `Written.unclosed_eq` — a layout closes the parentheses that it opens.
* `Binder.exists_rendered` — a settled layout is written, and read as its lexemes.
-/

namespace PersistenceQuery

namespace Emission

/-- Whatever the binder is, the emission does not fail and has the same token. -/
def IsSettled (b : Binder) : Emission → Prop
  | .parameter s v => isParameterName s = true ∧ (b.valueFor s v).isSome = true
  | .value _ | .stop _ => False
  | _ => True

/-- The lexemes of a settled emission. -/
def lexemes : Emission → List Lexeme
  | .word text => PersistenceQuery.lexemes text
  | .name text => PersistenceQuery.lexemes text
  | .quoted text => [.quoted text]
  | .opening => [.sign "("]
  | .closing => [.sign ")"]
  | .parameter s _ => [.parameter s]
  | .space | .value _ | .stop _ => []

end Emission

namespace Binder

/-- The value for a parameter stays the same. -/
theorem valueFor_after (b : Binder) (requests : List Request) :
    (b.after requests).valueFor = b.valueFor := by
  funext s v
  rw [valueFor, (b.grows_after requests).supplied_eq, valueFor]

theorem isSettled_after {b : Binder} (requests : List Request) {e : Emission}
    (h : e.IsSettled b) : e.IsSettled (b.after requests) := by
  cases e with
  | parameter s v =>
    rw [Emission.IsSettled, valueFor_after]
    exact h
  | value v => exact h
  | stop fault => exact h
  | _ => trivial

/-- The token of a settled emission is read as its lexemes. -/
theorem lexemes_token {b : Binder} {e : Emission} (h : e.IsSettled b) :
    PersistenceQuery.lexemes (e.token b) = e.lexemes := by
  cases e with
  | quoted s => exact (Lexer.read_quote s).2
  | parameter s v =>
    obtain ⟨hname, hvalue⟩ := h
    obtain ⟨value, hvalue⟩ := Option.isSome_iff_exists.1 hvalue
    rw [Emission.token, bind, hvalue]
    exact (read_placeholder hname).2
  | value v => cases h
  | stop fault => cases h
  | opening =>
    rw [Emission.token_opening]
    decide
  | closing =>
    rw [Emission.token_closing]
    decide
  | _ => rfl

/-- The lexemes of settled emissions do not depend on the binder. -/
theorem spelled_eq {b : Binder} {es : List Emission} (h : ∀ e ∈ es, e.IsSettled b) :
    b.spelled es = es.flatMap Emission.lexemes := by
  induction es generalizing b with
  | nil => rfl
  | cons e es ih =>
    have hrest := ih fun f hf => isSettled_after e.request?.toList (h f (List.mem_cons_of_mem _ hf))
    rw [spelled, lexemes_token (h e List.mem_cons_self), hrest, List.flatMap_cons]

end Binder

/-! ### Drafts -/

namespace Draft

theorem exists_emit {d : Draft} {e : Emission} (h : e.IsSettled d.binder) :
    ∃ d', d.emit e = (d', none) := by
  cases e with
  | parameter s v =>
    obtain ⟨value, hvalue⟩ := Option.isSome_iff_exists.1 h.2
    simp [emit, Binder.bind, hvalue, bound]
  | value v => cases h
  | stop fault => cases h
  | _ => exact ⟨_, rfl⟩

/-- Settled emissions are written to the end. -/
theorem exists_emitAll {es : List Emission} {d : Draft} (h : ∀ e ∈ es, e.IsSettled d.binder) :
    ∃ d', d.emitAll es = (d', none) := by
  induction es generalizing d with
  | nil => exact ⟨d, rfl⟩
  | cons e es ih =>
    obtain ⟨d₁, hd₁⟩ := exists_emit (h e List.mem_cons_self)
    have hsettled : ∀ f ∈ es, f.IsSettled d₁.binder := fun f hf => by
      rw [binder_of_emit hd₁]
      exact Binder.isSettled_after _ (h f (List.mem_cons_of_mem _ hf))
    obtain ⟨d', hd'⟩ := ih hsettled
    exact ⟨d', emitAll_cons_eq_none.2 ⟨d₁, hd₁, hd'⟩⟩

end Draft

theorem Draft.unclosed_parenthesized {es : List Emission}
    (hes : ∀ {d d' : Draft}, d.emitAll es = (d', none) → d'.unclosed = d.unclosed) {d d' : Draft}
    (hemit : d.emitAll (Emission.parenthesized es) = (d', none)) : d'.unclosed = d.unclosed := by
  obtain ⟨d₁, hopening, hrest⟩ := Draft.emitAll_cons_eq_none.1 hemit
  obtain ⟨d₂, hinner, hclosing⟩ := Draft.emitAll_append_eq_none.1 hrest
  obtain ⟨d₃, hclosing, hnil⟩ := Draft.emitAll_cons_eq_none.1 hclosing
  simp only [Draft.emitAll_nil, Prod.mk.injEq, and_true] at hnil
  rw [← hnil, Draft.unclosed_of_emit hclosing, hes hinner, Draft.unclosed_of_emit hopening]
  exact Nat.add_sub_cancel _ 1

/-- A layout closes the parentheses that it opens. -/
theorem Written.unclosed_eq {P : String → Prop} {es : List Emission} {ns : List Expr}
    (h : Written P es ns) {d d' : Draft} (hemit : d.emitAll es = (d', none)) :
    d'.unclosed = d.unclosed := by
  induction h generalizing d d' with
  | nothing =>
    simp only [Draft.emitAll_nil, Prod.mk.injEq, and_true] at hemit
    rw [hemit]
  | inside _ _ _ ih => exact ih hemit
  | parenthesized _ ih => exact Draft.unclosed_parenthesized ih hemit
  | minus _ ih =>
    obtain ⟨d₁, hminus, hes⟩ := Draft.emitAll_cons_eq_none.1 hemit
    exact (ih hes).trans (Draft.unclosed_of_emit hminus)
  | applied _ _ ih =>
    obtain ⟨d₁, hword, hes⟩ := Draft.emitAll_cons_eq_none.1 hemit
    exact (Draft.unclosed_parenthesized ih hes).trans (Draft.unclosed_of_emit hword)
  | spaced _ _ iha ihb =>
    obtain ⟨d₁, has, hrest⟩ := Draft.emitAll_append_eq_none.1 hemit
    obtain ⟨d₂, hspace, hbs⟩ := Draft.emitAll_cons_eq_none.1 hrest
    rw [ihb hbs, Draft.unclosed_of_emit hspace]
    exact iha has
  | separated _ _ _ iha ihb =>
    obtain ⟨d₁, has, hrest⟩ := Draft.emitAll_append_eq_none.1 hemit
    obtain ⟨d₂, hspace, hbs⟩ := Draft.emitAll_cons_eq_none.1 hrest
    rw [ihb hbs, Draft.unclosed_of_emit hspace]
    exact iha has
  | _ =>
    -- a single emission that is not a parenthesis
    obtain ⟨d₁, hone, hnil⟩ := Draft.emitAll_cons_eq_none.1 hemit
    simp only [Draft.emitAll_nil, Prod.mk.injEq, and_true] at hnil
    rw [← hnil]
    exact Draft.unclosed_of_emit hone

/-- A settled layout that is not empty is written, and its text is read as its lexemes. -/
theorem Binder.exists_rendered {b : Binder} {es : List Emission} {ns : List Expr}
    (hwritten : Written (fun s => isPlain s = true) es ns)
    (hnames : ∀ s v, Expr.parameter s v ∈ ns → isParameterName s = true)
    (hsettled : ∀ e ∈ es, e.IsSettled b) (hne : es.flatMap Emission.lexemes ≠ []) :
    ∃ r, b.rendered es = .ok r ∧ lexemes r.text = es.flatMap Emission.lexemes := by
  obtain ⟨d, hemit⟩ := Draft.exists_emitAll (d := Draft.start b) hsettled
  have hparams : ∀ s v, Emission.parameter s v ∈ es → isParameterName s = true :=
    fun s v hs => (hsettled _ hs).1
  obtain ⟨hread, hout⟩ := Draft.lexemes_emitAll hemit hwritten.isChain
    (hwritten.closes_of_mem hparams) rfl (.inl rfl)
  rw [show (Draft.start b).binder = b from rfl, Binder.spelled_eq hsettled] at hread
  have htrim : Text.trim d.text.toList ≠ [] := by
    intro hnil
    -- a blank text has no lexemes
    have hblank := Lexer.read_trim hout
    rw [hnil] at hblank
    exact hne (hread.symm.trans hblank.symm)
  have hfinish : d.finish = .ok (String.ofList (Text.trim d.text.toList), d.binder.bound) :=
    Draft.finish_eq_ok.2 ⟨hwritten.unclosed_eq hemit, htrim, rfl, rfl⟩
  have hrendered : b.rendered es
      = .ok ⟨String.ofList (Text.trim d.text.toList), d.binder.bound⟩ :=
    Binder.rendered_eq_ok.2 ⟨d, hemit, hfinish⟩
  refine ⟨_, hrendered, ?_⟩
  rw [Binder.lexemes_rendered hrendered hwritten hnames, Binder.spelled_eq hsettled]

end PersistenceQuery
