import PersistenceQuery.Proofs.Rendering.Outcome
import PersistenceQuery.Proofs.Text.Quotation

/-!
# Quoted texts in a rendered query

A text that a query brings stays between its quotes, whatever is in it.  Whoever scans a rendered
query by the rule of the quotes alone finds the texts that the query contributes, in the order of
its writing, and nothing else.

## Main definitions

* `Value.quotations`, `Visit.quotations` — the texts that the literal of a value quotes, and those
  that a part contributes on a tour.
* `Query.quotations` — the texts that a query contributes.

## Main results

* `Value.quotedTexts?_literal`, `Emission.exists_quotedTexts?` — the quoted texts of one literal,
  and of the token of one emission.
* `Query.quotedTexts_render` — the quoted texts of a rendered query.
-/

namespace PersistenceQuery

open Text

/-! ### What a query contributes -/

/-- The texts between the quotes of the literal of a value. -/
def Value.quotations : Value → List String
  | .string s => [s]
  | .date d => [d.text]
  | .time t => [t.text]
  | .timestamp t => [t.text]
  | _ => []

/-- The texts that a part contributes: a literal that is written inline, the name of a function in
front of its arguments, and an escape character behind the pattern. -/
def Visit.quotations (mode : Mode) : Visit → List String
  | .enter (.expr (.literal v)) =>
    match mode with
    | .inline => v.quotations
    | .placeholder => []
  | .enter (.expr (.function name _)) => [name]
  | .leave (.expr (.like _ _ (some c) _)) => [String.singleton c]
  | _ => []

/-- The texts that a query contributes, in the order of its writing. -/
def Query.quotations (q : Query) (mode : Mode) : List String :=
  q.tour.flatMap (Visit.quotations mode)

/-! ### Literals -/

/-- The character is no quote. -/
def isNoQuote (c : Char) : Bool := c != '\''

theorem quote_notMem_iff {cs : List Char} : '\'' ∉ cs ↔ cs.all isNoQuote = true := by
  rw [List.all_eq_true]
  constructor
  · intro h c hc
    exact bne_iff_ne.2 fun heq => h (heq ▸ hc)
  · intro h hmem
    exact absurd (h _ hmem) (by decide)

theorem Lexer.quotedTexts?_markedLiteral {marker : String} (hmarker : '\'' ∉ marker.toList)
    (text : String) : between.quotedTexts? (markedLiteral marker text).toList = some [text] := by
  have hmem : '\'' ∉ '{' :: marker.toList := by
    rw [List.mem_cons, not_or]
    exact ⟨by decide, hmarker⟩
  have hopen : '\'' ∉ '{' :: marker.toList ++ [' '] := by
    rw [List.mem_append, not_or]
    exact ⟨hmem, by decide⟩
  have hbetween : between.after ('{' :: marker.toList ++ [' ']) = .between := by
    rw [after_append]
    exact step_of_isDelimiter (isOutside_after rfl hmem) rfl
  have hquoted := quotedTexts?_append (quotedTexts?_of_notMem rfl hopen) (quotedTexts?_quoted text)
    (by rw [hbetween]; exact apart_between _)
  have hbrace : between.quotedTexts? ['}'] = some [] := quotedTexts?_of_notMem rfl (by decide)
  have h := quotedTexts?_append hquoted hbrace (by
    rw [after_append, hbetween, (read_quote text).1]
    rintro c ⟨⟩
    rfl)
  simpa [markedLiteral] using h

/-- The literal of a value has between its quotes what the value contributes. -/
theorem Value.quotedTexts?_literal {v : Value} {text : String} (h : v.literal = .ok text)
    (hn : ∀ s ∈ v.names, '\'' ∉ s.toList) :
    Lexer.between.quotedTexts? text.toList = some v.quotations := by
  cases literal_eq_ok_iff.1 h with
  | null => exact Lexer.quotedTexts?_of_notMem rfl (by decide)
  | bool b => cases b <;> exact Lexer.quotedTexts?_of_notMem rfl (by decide)
  | int n =>
    exact Lexer.quotedTexts?_of_notMem rfl
      (Lexer.quote_notMem_of_plain (plain_of_numeral (numeral_toString _)))
  | float _ =>
    rw [String.toList_ofList]
    exact Lexer.quotedTexts?_of_notMem rfl
      (Lexer.quote_notMem_of_plain (plain_of_numeral (numeral_floatLiteral _)))
  | string s => exact Lexer.quotedTexts?_quoted s
  | marked hv => cases hv <;> exact Lexer.quotedTexts?_markedLiteral (by decide) _
  | enum _ _ =>
    refine Lexer.quotedTexts?_of_notMem rfl (quote_notMem_iff.2 ?_)
    exact all_of_enumNames rfl fun s hs => quote_notMem_iff.1 (hn s hs)

/-! ### Emissions -/

/-- The texts that an emission contributes. -/
def Emission.quotations (mode : Mode) : Emission → List String
  | .quoted s => [s]
  | .value v =>
    match mode with
    | .inline => v.quotations
    | .placeholder => []
  | _ => []

theorem quote_notMem_placeholder {s : String} (h : isParameterName s = true) :
    '\'' ∉ (placeholder s).toList := by
  have hname := List.all_eq_true.1 (isNameChar_of_isParameterName h)
  rw [placeholder, String.toList_append, List.mem_append, not_or]
  exact ⟨by decide, fun hmem => absurd (hname _ hmem) (by decide)⟩

/-- The token of an emission closes its quotes; if the emission does not fail, it has what the
emission contributes between them. -/
theorem Emission.exists_quotedTexts? {e : Emission} (hspells : e.Spells isNoQuote)
    (hname : ∀ s v, e = .parameter s v → isParameterName s = true) (b : Binder) :
    ∃ texts, Lexer.between.quotedTexts? (e.token b).toList = some texts
      ∧ (e.fault? b = none → texts = e.quotations b.mode) := by
  have hplain : ∀ {s : String}, '\'' ∉ s.toList →
      Lexer.between.quotedTexts? s.toList = some [] := Lexer.quotedTexts?_of_notMem rfl
  cases e with
  | word w => exact ⟨[], hplain (quote_notMem_iff.2 hspells), fun _ => rfl⟩
  | name s => exact ⟨[], hplain (quote_notMem_iff.2 hspells), fun _ => rfl⟩
  | quoted s => exact ⟨[s], Lexer.quotedTexts?_quoted s, fun _ => rfl⟩
  | space => exact ⟨[], rfl, fun _ => rfl⟩
  | stop f => exact ⟨[], rfl, fun _ => rfl⟩
  | opening => exact ⟨[], hplain (by rw [token_opening]; decide), fun _ => rfl⟩
  | closing => exact ⟨[], hplain (by rw [token_closing]; decide), fun _ => rfl⟩
  | parameter s v =>
    refine ⟨[], ?_, fun _ => rfl⟩
    rcases token_parameter_cases b s v with htoken | htoken
    · rw [htoken]
      exact hplain (quote_notMem_placeholder (hname s v rfl))
    · rw [htoken]
      rfl
  | value v =>
    rcases token_value_cases b v with ⟨hmode, hliteral⟩ | ⟨hmode, htoken⟩
      | ⟨hmode, ⟨cause, hliteral⟩, htoken⟩
    · refine ⟨v.quotations, ?_, fun _ => by rw [hmode]; rfl⟩
      exact Value.quotedTexts?_literal hliteral fun s hs => quote_notMem_iff.2 (hspells s hs)
    · refine ⟨[], ?_, fun _ => by rw [hmode]; rfl⟩
      rw [htoken]
      exact hplain (quote_notMem_placeholder (isParameterName_placeholderName _))
    · refine ⟨[], by rw [htoken]; rfl, fun h => ?_⟩
      simp only [fault?, hmode, Value.unfit?_of_error hliteral] at h
      cases h

/-- Emissions that do not fail have, between their quotes, what they contribute. -/
theorem Binder.quoted_spelled {b : Binder} {es : List Emission}
    (hspells : ∀ e ∈ es, e.Spells isNoQuote)
    (hnames : ∀ s v, Emission.parameter s v ∈ es → isParameterName s = true)
    (hfaults : ∀ e ∈ es, e.fault? b = none) :
    (b.spelled es).filterMap Lexeme.quoted? = es.flatMap (Emission.quotations b.mode) := by
  induction es generalizing b with
  | nil => rfl
  | cons e es ih =>
    rw [List.forall_mem_cons] at hspells hfaults
    obtain ⟨texts, htoken, htexts⟩ := Emission.exists_quotedTexts? hspells.1
      (fun s v heq => hnames s v (heq ▸ List.mem_cons_self)) b
    have hrest := @ih (b.after e.request?.toList) hspells.2
      (fun s v hs => hnames s v (List.mem_cons_of_mem _ hs))
      (by rw [Emission.fault?_after]; exact hfaults.2)
    rw [(b.grows_after _).mode_eq] at hrest
    rw [spelled, List.filterMap_append, hrest, List.flatMap_cons, ← htexts hfaults.1]
    exact congrArg (· ++ _) (Lexer.quotedTexts?_eq_some.1 htoken).2

/-! ### Tours -/

/-- Words and names contribute nothing. -/
theorem Emission.quotations_yield (mode : Mode) (e : Emission) :
    e.yield.tokens.flatMap (Emission.quotations mode) = e.quotations mode := by
  cases e <;> simp [Emission.yield, Yield.single, Yield.stop, Emission.quotations, Yield.tokens_one]

/-- What a part contributes is among what it yields. -/
theorem Visit.quotations_yield {D : Dialect} {v : Visit} (h : (v.yield D).fault = none)
    (mode : Mode) :
    (v.yield D).tokens.flatMap (Emission.quotations mode) = v.quotations mode := by
  have hsingle : ∀ e, (Yield.single e).tokens.flatMap (Emission.quotations mode)
      = e.quotations mode := fun e => List.append_nil _
  cases v with
  | enter p =>
    have hforeword : (Visit.yield D (.enter p)) = p.foreword := by
      rw [Visit.yield] at h ⊢
      cases hrefusal : D.refusal? p with
      | some f =>
        rw [hrefusal] at h
        cases h
      | none => exact one_mul _
    rw [hforeword]
    cases p with
    | expr e =>
      cases e with
      | literal v => exact hsingle _
      | function name es => exact hsingle _
      | inList v es negated =>
        rw [Part.foreword]
        split <;> rfl
      | _ => rfl
    | _ => rfl
  | leave p =>
    cases p with
    | expr e =>
      cases e with
      | like v p escape negated => cases escape <;> [rfl; exact hsingle _]
      | _ => rfl
    | _ => rfl

/-- The emissions of a query contribute what the query contributes. -/
theorem Query.flatMap_quotations_write {D : Dialect} {q : Query} {b : Binder}
    (h : (D.write q.part).findSome? (Emission.fault? b) = none) (mode : Mode) :
    (D.write q.part).flatMap (Emission.quotations mode) = q.quotations mode := by
  have hfault : (yieldOf (D.write q.part)).fault = none := by
    rw [findSome?_fault?, Yield.fault?, Option.or_eq_none_iff] at h
    exact h.2
  have hes := (Yield.tokens_prod hfault).1
  have htour : ((D.write q.part).map Emission.yield).prod = (q.tour.map (Visit.yield D)).prod :=
    q.yieldOf_write
  rw [Query.yieldOf_write] at hfault
  obtain ⟨hvs, hvisits⟩ := Yield.tokens_prod hfault
  rw [List.forall_mem_map] at hvisits
  calc (D.write q.part).flatMap (Emission.quotations mode)
      = ((D.write q.part).map Emission.yield).prod.tokens.flatMap (Emission.quotations mode) := by
        rw [hes, List.flatMap_map, List.flatMap_assoc]
        simp only [Emission.quotations_yield]
    _ = (q.tour.map (Visit.yield D)).prod.tokens.flatMap (Emission.quotations mode) := by
        rw [htour]
    _ = q.quotations mode := by
        rw [hvs, List.flatMap_map, List.flatMap_assoc, Query.quotations]
        exact List.flatMap_congr fun v hv => Visit.quotations_yield (hvisits v hv) mode

/-! ### Rendered queries -/

/-- A scan by the rule of the quotes leaves no text of a rendered query open, and finds what the
query contributes.  Names without quotes are all it takes; literals, names of functions and escape
characters may be any. -/
theorem Query.quotedTexts_render {q : Query} {supplied : Option Bindings} {mode : Mode}
    {r : Rendered} (hnames : ∀ s ∈ q.names, '\'' ∉ s.toList)
    (h : q.render .standard supplied mode = .ok r) :
    quotedTexts? r.text = some (q.quotations mode) := by
  have hwritten : Written (fun s => s.toList.all isNoQuote = true) (Dialect.standard.write q.part)
      q.nodes :=
    Query.written Dialect.standard_hasWords q fun s hs => quote_notMem_iff.1 (hnames s hs)
  obtain ⟨hshape, -, hr⟩ := Query.render_eq_ok.1 h
  obtain ⟨d, hemit, -⟩ := Binder.rendered_eq_ok.1 hr
  have hspells : ∀ e ∈ Dialect.standard.write q.part, e.Spells isNoQuote :=
    hwritten.spells_of_mem (fun c hc => bne_iff_ne.2 fun heq => absurd (heq ▸ hc) (by decide))
      rfl rfl
  have hparams : ∀ s v, Emission.parameter s v ∈ Dialect.standard.write q.part →
      isParameterName s = true := fun s v hs =>
    Query.isParameterName_of_checkShape hshape (hwritten.mem_of_parameter hs)
  have hfaults : (Dialect.standard.write q.part).findSome?
      (Emission.fault? (q.binder supplied mode)) = none := by
    have hsnd := Draft.snd_emitAll (Dialect.standard.write q.part)
      (Draft.start (q.binder supplied mode))
    rw [hemit] at hsnd
    exact hsnd.symm
  have hcloses : ∀ e ∈ Dialect.standard.write q.part, e.Closes := fun e he b => by
    obtain ⟨texts, htexts, -⟩ :=
      Emission.exists_quotedTexts? (hspells e he) (fun s v heq => hparams s v (heq ▸ he)) b
    exact (Lexer.quotedTexts?_eq_some.1 htexts).1
  obtain ⟨hread, hout⟩ := Binder.lexemes_rendered_of_closes hr hwritten.isChain hcloses
  rw [quotedTexts?_eq, Lexer.quotedTexts?_eq_some]
  refine ⟨hout, ?_⟩
  rw [lexemes] at hread
  rw [hread, Binder.quoted_spelled hspells hparams (List.findSome?_eq_none_iff.1 hfaults),
    Query.mode_binder, Query.flatMap_quotations_write hfaults]

/-- A title is compared with a text that would end the condition if its quotes were not doubled; the
name of the function and the escape character have quotes as well. -/
def booksByTitle : Query := .select {
  resultType := "Book"
  distinct := false
  items := [.entity ⟨"Book", "b"⟩]
  sources := [⟨⟨"Book", "b"⟩, []⟩]
  filter := some (.like (.function "reader's" [.path ⟨["b", "title"]⟩])
    (.literal (.string "x' OR '1' = '1")) (some '\'') false)
  groupBy := []
  having := none
  orderBy := [] }

theorem quotedTexts_booksByTitle :
    (∀ s ∈ booksByTitle.names, '\'' ∉ s.toList)
      ∧ ∃ r, booksByTitle.render .standard none .inline = .ok r
        ∧ quotedTexts? r.text = some ["reader's", "x' OR '1' = '1", "'"] := by
  have hnames : ∀ s ∈ booksByTitle.names, '\'' ∉ s.toList := by decide +kernel
  obtain ⟨r, hr⟩ := exists_of_isOk (x := booksByTitle.render .standard none .inline)
    (by decide +kernel)
  exact ⟨hnames, r, hr, Query.quotedTexts_render hnames hr⟩

end PersistenceQuery
