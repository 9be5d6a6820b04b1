import PersistenceQuery.Proofs.Query.Checked
import PersistenceQuery.Proofs.Rendering.Settled
import PersistenceQuery.Proofs.Rendering.Yield

/-!
# How a rendering ends

Whether a query can be written in the standard dialect, or in what is left of it without some
kinds, and with which fault it fails otherwise, can be said from the query alone: its shape, its
parameters and then its parts, each looked at for itself.  The other faults that a draft knows
never occur.

## Main definitions

* `Value.unfit?`, `Part.offence?` — what is wrong with a value, and with a part.
* `Query.fault?` — the first thing that is wrong with a query.

## Main results

* `Draft.snd_emitAll` — emissions fail with the fault of the first that fails.
* `Query.findSome?_write` — the first emission that fails belongs to the first part that does.
* `Query.render_outcome` — a rendering fails with the first thing that is wrong with the query,
  and succeeds if there is nothing.
-/

namespace PersistenceQuery

open Text

/-! ### What is wrong with a query -/

/-- Why a value cannot stand in a text. -/
def Value.unfit? : Value → Option ValueFault
  | .bytes data => some (.binary data.length)
  | .float x => if x.isFinite then none else some (.notFinite x)
  | .time t => if t.nanosecond ≠ 0 ∨ t.second = 60 then some (.fractionalTime t) else none
  | .enum typeName constant => if typeName = "" ∨ constant = "" then some .incompleteEnum else none
  | _ => none

/-- What is wrong with a part where the kinds `removed` have no rule: its kind has none, a node of
its own kind has none or the rule of a construct, or a value has no literal. -/
def Part.offence? (removed : List String) (mode : Mode) (p : Part) : Option Fault :=
  if p.kind ∈ removed then some (.unsupportedKind p.kind)
  else
    match p with
    | .expr (.custom kind _) =>
      if kind ∈ callKeywords.map Prod.fst then none
      else if Dialect.standard.contains kind then some (.mismatch kind kind)
      else some (.unsupportedKind kind)
    | .expr (.literal v) =>
      match mode with
      | .inline => v.unfit?.map .unsupportedValue
      | .placeholder => none
    | _ => none

/-- The first thing that is wrong with a query: a rule of its shape that it breaks, a parameter
without a value, or a part that cannot be written. -/
def Query.fault? (q : Query) (removed : List String) (supplied : Option Bindings) (mode : Mode) :
    Option Fault :=
  match q.checkShape with
  | .error cause => some (.invalidShape cause)
  | .ok () =>
    match q.nodes.findSome? (Expr.unbound? supplied) with
    | some name => some (.missingBinding name)
    | none => q.parts.findSome? (Part.offence? removed mode)

/-! ### Emissions that fail -/

/-- A value has a literal, or there is a reason why not. -/
theorem Value.literal_cases (v : Value) :
    (∃ text, v.literal = .ok text ∧ v.unfit? = none)
      ∨ ∃ cause, v.literal = .error cause ∧ v.unfit? = some cause := by
  cases v with
  | float x => by_cases h : x.isFinite = true <;> simp [literal, unfit?, h]
  | time t =>
    by_cases hn : t.nanosecond = 0 <;> by_cases hs : t.second = 60 <;>
      simp [literal, unfit?, Clock.isWholeSecond, hn, hs]
  | enum typeName constant =>
    by_cases ht : typeName = "" <;> by_cases hc : constant = "" <;>
      simp [literal, unfit?, ht, hc]
  | _ => simp [literal, unfit?]

theorem Value.unfit?_of_error {v : Value} {cause : ValueFault} (h : v.literal = .error cause) :
    v.unfit? = some cause := by
  rcases v.literal_cases with ⟨text, hliteral, -⟩ | ⟨cause', hliteral, hunfit⟩
  · cases h.symm.trans hliteral
  · cases h.symm.trans hliteral
    exact hunfit

/-- The fault with which an emission fails. -/
def Emission.fault? (b : Binder) : Emission → Option Fault
  | .value v =>
    match b.mode with
    | .inline => v.unfit?.map .unsupportedValue
    | .placeholder => none
  | .parameter s v => if (b.valueFor s v).isSome then none else some (.missingBinding s)
  | .stop f => some f
  | .word _ | .name _ | .quoted _ | .space | .opening | .closing => none

/-- Which emissions fail does not change while a text is written. -/
theorem Emission.fault?_after (b : Binder) (requests : List Request) :
    Emission.fault? (b.after requests) = Emission.fault? b := by
  funext e
  cases e <;>
    simp only [Emission.fault?, (b.grows_after requests).mode_eq, b.valueFor_after requests]

namespace Draft

theorem snd_emit (d : Draft) (e : Emission) : (d.emit e).2 = e.fault? d.binder := by
  cases e with
  | value v =>
    rw [emit, Binder.register, Emission.fault?]
    cases d.binder.mode with
    | placeholder => rfl
    | inline =>
      rcases v.literal_cases with ⟨text, hl, hu⟩ | ⟨cause, hl, hu⟩ <;> simp [hl, hu, bound]
  | parameter s v =>
    rw [emit, Binder.bind, Emission.fault?]
    cases d.binder.valueFor s v <;> rfl
  | _ => rfl

/-- Emissions fail with the fault of the first that fails. -/
theorem snd_emitAll (es : List Emission) (d : Draft) :
    (d.emitAll es).2 = es.findSome? (Emission.fault? d.binder) := by
  induction es generalizing d with
  | nil => rfl
  | cons e es ih =>
    have hfirst := d.snd_emit e
    rw [emitAll, List.findSome?_cons]
    rcases he : d.emit e with ⟨d₁, _ | f⟩
    · rw [he] at hfirst
      rw [← hfirst, ← Emission.fault?_after d.binder e.request?.toList, ← binder_of_emit he]
      exact ih d₁
    · rw [he] at hfirst
      rw [← hfirst]

theorem exists_text_write (d : Draft) (token : String) :
    ∃ s, (d.write token).text = d.text ++ s := by
  rw [write]
  split
  · exact ⟨" " ++ token, String.append_assoc⟩
  · exact ⟨token, rfl⟩

/-- Whatever is emitted, the text so far stays. -/
theorem exists_text_emit (d : Draft) (e : Emission) : ∃ s, (d.emit e).1.text = d.text ++ s := by
  have hbound : ∀ x, ∃ s, (d.bound x).1.text = d.text ++ s := by
    rintro ⟨fault | token, b⟩
    · exact ⟨"", (String.append_empty).symm⟩
    · exact exists_text_write { d with binder := b } token
  cases e with
  | space =>
    refine ⟨"", ?_⟩
    rw [emit, space, String.append_empty]
    split <;> rfl
  | stop fault => exact ⟨"", (String.append_empty).symm⟩
  | value v => exact hbound _
  | parameter s v => exact hbound _
  | closing => exact exists_text_write { d with unclosed := d.unclosed - 1 } ")"
  | opening => exact d.exists_text_write "("
  | word w => exact d.exists_text_write w
  | name s => exact d.exists_text_write s
  | quoted s => exact d.exists_text_write (quote s)

theorem exists_text_emitAll (es : List Emission) (d : Draft) :
    ∃ s, (d.emitAll es).1.text = d.text ++ s := by
  refine emitAll_keeps (I := fun d' => ∃ s, d'.text = d.text ++ s) (fun e _ d' hd' => ?_)
    ⟨"", (String.append_empty).symm⟩
  obtain ⟨s, hs⟩ := hd'
  obtain ⟨t, ht⟩ := d'.exists_text_emit e
  exact ⟨s ++ t, by rw [ht, hs, String.append_assoc]⟩

end Draft

/-! ### Parts that fail -/

/-- The fault with which a yield fails. -/
def Yield.fault? (b : Binder) (y : Yield) : Option Fault :=
  (y.tokens.findSome? (Emission.fault? b)).or y.fault

namespace Yield

@[simp] theorem fault?_one (b : Binder) : (1 : Yield).fault? b = none := rfl

@[simp] theorem fault?_stop (b : Binder) (f : Fault) : (stop f).fault? b = some f := rfl

@[simp] theorem fault?_single (b : Binder) (e : Emission) :
    (single e).fault? b = e.fault? b := by
  rw [Yield.fault?, single, List.findSome?_singleton, Option.or_none]

/-- The first fault counts. -/
@[simp] theorem fault?_mul (b : Binder) (x y : Yield) :
    (x * y).fault? b = (x.fault? b).or (y.fault? b) := by
  cases hx : x.fault with
  | some f =>
    rw [mul_of_some hx]
    simp only [Yield.fault?, hx]
    cases x.tokens.findSome? (Emission.fault? b) <;> rfl
  | none =>
    rw [mul_of_none hx]
    simp only [Yield.fault?, hx, List.findSome?_append, Option.or_none, Option.or_assoc]

end Yield

/-- Only what emissions yield can fail. -/
theorem findSome?_fault? (b : Binder) (es : List Emission) :
    es.findSome? (Emission.fault? b) = (yieldOf es).fault? b := by
  induction es with
  | nil => rfl
  | cons e es ih =>
    have he : e.yield.fault? b = e.fault? b := by
      cases e <;> simp [Emission.yield, Emission.fault?]
    rw [List.findSome?_cons, yieldOf_cons, Yield.fault?_mul, ← ih, he]
    cases e.fault? b <;> rfl

/-- The fault with which a part itself fails in a dialect. -/
def Part.fault? (D : Dialect) (b : Binder) (p : Part) : Option Fault :=
  (D.refusal? p).or (p.foreword.fault? b)

/-- Nothing fails behind the parts inside a part. -/
theorem Part.fault?_afterword (b : Binder) (p : Part) : p.afterword.fault? b = none := by
  unfold Part.afterword
  split <;> simp [Emission.fault?]

theorem fault?_yieldOfTour (D : Dialect) (b : Binder) (vs : List Visit) :
    (yieldOfTour D vs).fault? b
      = (vs.filterMap Visit.entered?).findSome? (Part.fault? D b) := by
  induction vs with
  | nil => rfl
  | cons v vs ih =>
    rw [← List.singleton_append, yieldOfTour_append, Yield.fault?_mul, ih]
    cases v with
    | leave p =>
      rw [List.singleton_append, List.filterMap_cons_none (by rfl)]
      simp [yieldOfTour, Visit.yield, p.fault?_afterword]
    | enter p =>
      have hp : (yieldOfTour D [.enter p]).fault? b = p.fault? D b := by
        cases h : D.refusal? p <;> simp [yieldOfTour, Visit.yield, Part.fault?, h]
      have hentered : Visit.entered? (.enter p) = some p := rfl
      rw [hp, List.singleton_append, List.filterMap_cons_some hentered, List.findSome?_cons]
      cases p.fault? D b <;> rfl

/-- The first emission of a query that fails belongs to the first part that does. -/
theorem Query.findSome?_write (D : Dialect) (b : Binder) (q : Query) :
    (D.write q.part).findSome? (Emission.fault? b) = q.parts.findSome? (Part.fault? D b) := by
  rw [findSome?_fault?, Query.yieldOf_write, fault?_yieldOfTour]
  rfl

/-! ### Refusals -/

section
variable {removed : List String}

/-- A part of which the language has the form is not refused. -/
theorem Dialect.refusal?_of_form {D : Dialect} {p : Part} {r : Rule}
    (hD : D.rule? p.kind = Dialect.standard.rule? p.kind) (hr : r ∈ Rule.standard)
    (hform : r.form = p.form) : D.refusal? p = none := by
  have hkind : p.kind = r.kind := by rw [Part.kind, Rule.kind, hform]
  have hfits : r.fits p = true := by
    rw [Rule.fits, hform]
    exact beq_self_eq_true _
  rw [Dialect.refusal?, hD, hkind, Dialect.standard_rule?_of_mem hr]
  exact if_pos hfits

theorem exists_rule_of_call {kind : String} (h : kind ∈ callKeywords.map Prod.fst) :
    ∃ r ∈ Rule.standard, r.form = .call kind := by
  obtain ⟨⟨k, w⟩, hcall, rfl⟩ := List.mem_map.1 h
  exact ⟨.call k w, Rule.call_mem_standard hcall, rfl⟩

/-- The language has the form of every part but for nodes of kinds of their own. -/
theorem Part.exists_rule {p : Part} (h : ∀ kind es, p ≠ .expr (.custom kind es)) :
    ∃ r ∈ Rule.standard, r.form = p.form := by
  have hconstruct : ∀ c, ∃ r ∈ Rule.standard, r.form = .construct c := fun c =>
    ⟨.construct c, Rule.construct_mem_standard c, rfl⟩
  cases p with
  | expr e =>
    cases e with
    | custom kind es => exact absurd rfl (h kind es)
    | unary f v => exact exists_rule_of_call (by cases f <;> decide)
    | current m => exact exists_rule_of_call (by cases m <;> decide)
    | variadic f es => exact exists_rule_of_call (by cases f <;> decide)
    | substring v start length => exact exists_rule_of_call (by decide)
    | nullIf l r => exact exists_rule_of_call (by decide)
    | _ => exact hconstruct _
  | _ => exact hconstruct _

/-- A node of its own kind is taken for a call of that kind, if the language has one. -/
theorem Dialect.refusal?_custom {D : Dialect} {kind : String} {es : List Expr}
    (hD : D.rule? kind = Dialect.standard.rule? kind) :
    D.refusal? (.expr (.custom kind es))
      = if kind ∈ callKeywords.map Prod.fst then none
        else if Dialect.standard.contains kind then some (.mismatch kind kind)
        else some (.unsupportedKind kind) := by
  split
  · next hcall =>
    obtain ⟨r, hr, hform⟩ := exists_rule_of_call hcall
    exact Dialect.refusal?_of_form hD hr hform
  · next hcall =>
    have hkind : (Part.expr (.custom kind es)).kind = kind := rfl
    rw [Dialect.refusal?, Dialect.contains, hkind, hD]
    cases hr : Dialect.standard.rule? kind with
    | none => rfl
    | some r =>
      obtain ⟨hmem, hrkind⟩ := Dialect.rule?_ofRules hr
      have hfits : ¬ r.fits (.expr (.custom kind es)) = true := by
        intro hfits
        have hform : r.form = .call kind := beq_iff_eq.1 hfits
        cases r with
        | construct c => cases hform
        | call k w =>
          obtain rfl : k = kind := by simpa [Rule.form] using hform
          exact hcall (List.mem_map.2 ⟨_, Rule.mem_callKeywords hmem, rfl⟩)
      simp [hfits, hrkind]

/-- What a part yields in front fails as its literal does, if its parameters are bound and its
lists are not empty. -/
theorem Part.fault?_eq_offence? {b : Binder} {p : Part}
    (hbound : ∀ s v, p = .expr (.parameter s v) → (b.valueFor s v).isSome = true)
    (hlist : ∀ v es negated, p = .expr (.inList v es negated) → es ≠ []) :
    p.fault? (removed.foldl Dialect.without .standard) b = p.offence? removed b.mode := by
  have hD := Dialect.rule?_foldl_without removed .standard p.kind
  unfold Part.fault? Part.offence?
  by_cases hremoved : p.kind ∈ removed
  · rw [if_pos hremoved] at hD ⊢
    simp [Dialect.refusal?, hD]
  · rw [if_neg hremoved] at hD ⊢
    by_cases hcustom : ∃ kind es, p = .expr (.custom kind es)
    · obtain ⟨kind, es, rfl⟩ := hcustom
      rw [@Dialect.refusal?_custom _ kind es hD]
      exact Option.or_none
    · have hform := Part.exists_rule fun kind es h => hcustom ⟨kind, es, h⟩
      obtain ⟨r, hr, hform⟩ := hform
      rw [Dialect.refusal?_of_form hD hr hform, Option.none_or]
      cases p with
      | expr e =>
        cases e with
        | custom kind es => exact absurd ⟨kind, es, rfl⟩ hcustom
        | literal v => exact Yield.fault?_single b (.value v)
        | parameter s v => simp [Part.foreword, Emission.fault?, hbound s v rfl]
        | inList v es negated => simp [Part.foreword, hlist v es negated rfl]
        | function name es => simp [Part.foreword, Emission.fault?]
        | _ => rfl
      | _ => rfl

end

/-! ### Rendered queries -/

/-- A part is refused before anything is written, or it is written in its layout. -/
theorem Dialect.accept_cases (D : Dialect) (p : Part) (layout : String → List Emission) :
    (∃ f, D.accept p layout = [.stop f]) ∨ ∃ w, D.accept p layout = layout w := by
  unfold Dialect.accept
  split
  · exact .inl ⟨_, rfl⟩
  · unfold Rule.accept
    split
    · exact .inr ⟨_, rfl⟩
    · exact .inl ⟨_, rfl⟩

/-- What is written of a query starts with a word. -/
theorem Query.exists_word (D : Dialect) (q : Query) (hstop : ∀ f, .stop f ∉ D.write q.part) :
    ∃ w es, D.write q.part = .word w :: es ∧ startsFirm w = true := by
  rcases D.accept_cases q.part (q.part.layout D) with ⟨f, hf⟩ | ⟨w, hw⟩
  · refine absurd ?_ (hstop f)
    rw [Dialect.write, hf]
    exact List.mem_singleton_self _
  · rw [Dialect.write, hw]
    cases q with
    | select q =>
      cases q
      exact ⟨"SELECT", _, rfl, by decide⟩
    | update q => exact ⟨"UPDATE", _, rfl, by decide⟩
    | delete q => exact ⟨"DELETE FROM", _, rfl, by decide⟩

/-- The word in front stays, so the text begins with it. -/
theorem Query.startsFirm_text {D : Dialect} {q : Query} {b : Binder} {d : Draft}
    (h : (Draft.start b).emitAll (D.write q.part) = (d, none)) : startsFirm d.text = true := by
  obtain ⟨w, es, hwrite, hw⟩ := q.exists_word D (Draft.binder_of_emitAll h).2
  rw [hwrite, Draft.emitAll_cons_eq_none] at h
  obtain ⟨d₁, hword, hes⟩ := h
  obtain ⟨s, hs⟩ := d₁.exists_text_emitAll es
  have hstart : d₁.text = w := by
    rw [Draft.emit, Prod.mk.injEq] at hword
    rw [← hword.1]
    exact String.empty_append
  rw [hes, hstart] at hs
  rw [hs]
  exact startsFirm_append hw s

/-- What is written of a query to the end is a finished text. -/
theorem Query.exists_finish {D : Dialect} (hD : D.HasWords) {q : Query} {b : Binder} {d : Draft}
    (h : (Draft.start b).emitAll (D.write q.part) = (d, none)) :
    ∃ text bindings, d.finish = .ok (text, bindings) := by
  have hwritten : Written (fun _ => True) (D.write q.part) q.nodes :=
    Query.written hD q fun _ _ => trivial
  exact ⟨_, _, Draft.finish_eq_ok.2
    ⟨hwritten.unclosed_eq h, trim_ne_nil (Query.startsFirm_text h), rfl, rfl⟩⟩

/-- The writing of a query ends with the fault of the first part that fails, or with a text. -/
theorem Query.rendered_outcome {D : Dialect} (hD : D.HasWords) (q : Query) (b : Binder) :
    match q.parts.findSome? (Part.fault? D b) with
    | some f => b.rendered (D.write q.part) = .error f
    | none => ∃ r, b.rendered (D.write q.part) = .ok r := by
  have hemit := Draft.snd_emitAll (D.write q.part) (Draft.start b)
  rw [show (Draft.start b).binder = b from rfl, Query.findSome?_write] at hemit
  rcases hrun : (Draft.start b).emitAll (D.write q.part) with ⟨d, _ | f⟩
  · rw [hrun] at hemit
    rw [← hemit]
    obtain ⟨text, bindings, hfinish⟩ := Query.exists_finish hD hrun
    exact ⟨⟨text, bindings⟩, Binder.rendered_eq_ok.2 ⟨d, hrun, hfinish⟩⟩
  · rw [hrun] at hemit
    rw [← hemit]
    show b.rendered (D.write q.part) = .error f
    rw [Binder.rendered, hrun]

/-- A query that passes the checks is rendered if none of its parts fails. -/
theorem Query.exists_render {D : Dialect} (hD : D.HasWords) {q : Query}
    {supplied : Option Bindings} {mode : Mode} (hshape : q.checkShape = .ok ())
    (hbound : q.checkBindings supplied = .ok ())
    (hparts : q.parts.findSome? (Part.fault? D (q.binder supplied mode)) = none) :
    ∃ r, q.render D supplied mode = .ok r := by
  have hrendered := q.rendered_outcome hD (q.binder supplied mode)
  rw [hparts] at hrendered
  obtain ⟨r, hr⟩ := hrendered
  exact ⟨r, Query.render_eq_ok.2 ⟨hshape, hbound, hr⟩⟩

theorem findSome?_congr {α β : Type} {f g : α → Option β} {xs : List α}
    (h : ∀ x ∈ xs, f x = g x) : xs.findSome? f = xs.findSome? g := by
  induction xs with
  | nil => rfl
  | cons x xs ih =>
    rw [List.forall_mem_cons] at h
    rw [List.findSome?_cons, List.findSome?_cons, h.1, ih h.2]

/-- Behind the checks a part of a query fails for what is wrong with it. -/
theorem Query.findSome?_offence? {q : Query} (removed : List String) {supplied : Option Bindings}
    (mode : Mode) (hshape : q.checkShape = .ok ())
    (hbound : q.nodes.findSome? (Expr.unbound? supplied) = none) :
    q.parts.findSome? (Part.fault? (removed.foldl Dialect.without .standard)
        (q.binder supplied mode))
      = q.parts.findSome? (Part.offence? removed mode) := by
  refine findSome?_congr fun p hp => ?_
  rw [Part.fault?_eq_offence?, Query.mode_binder]
  · rintro s v rfl
    rw [Binder.valueFor, Query.supplied_binder]
    exact Query.isSome_value_of_unbound? hbound (Query.mem_nodes_of_mem_parts hp)
  · rintro v es negated rfl
    exact Query.members_ne_nil_of_checkShape hshape (Query.mem_nodes_of_mem_parts hp)

/-- How the rendering of a query ends where some kinds have no rule: with the first thing that is
wrong with the query, or with a text if there is nothing. -/
theorem Query.render_outcome (q : Query) (removed : List String) (supplied : Option Bindings)
    (mode : Mode) :
    match q.fault? removed supplied mode with
    | some f => q.render (removed.foldl Dialect.without .standard) supplied mode = .error f
    | none => ∃ r, q.render (removed.foldl Dialect.without .standard) supplied mode = .ok r := by
  rw [Query.fault?, Query.render, Query.checkBindings_eq]
  cases hshape : q.checkShape with
  | error cause => rfl
  | ok u =>
    cases hbound : q.nodes.findSome? (Expr.unbound? supplied) with
    | some name => rfl
    | none =>
      have hwords := Dialect.hasWords_foldl_without Dialect.standard_hasWords removed
      have h := q.rendered_outcome hwords (q.binder supplied mode)
      rw [Query.findSome?_offence? removed mode hshape hbound] at h
      exact h

end PersistenceQuery
