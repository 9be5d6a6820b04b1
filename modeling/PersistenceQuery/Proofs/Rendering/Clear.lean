import PersistenceQuery.Proofs.Decimal.Positional
import PersistenceQuery.Proofs.Rendering.Quotations
import PersistenceQuery.Proofs.Rendering.Spacing
import PersistenceQuery.Proofs.Text.Unquoted

/-!
# Tokens outside of quotes

What a token shows outside of quotes is little: the characters of the words and names that it
spells, those of numbers and placeholders, and the signs around temporal literals.  Texts that a
query brings as literals, names of functions and escape characters stand between quotes and show
nothing.

## Main definitions

* `isTokenChar` — a character that a token may show beside those of its words and names.
* `Value.isNegative` — the literal of the value begins with a minus sign.
* `Signed` — the figures of a number, behind a minus sign or not.

## Main results

* `Value.exists_signed_literal` — a negative literal is a minus sign with figures behind it.
* `Value.clear_literal`, `Emission.clear_token` — what holds of all these characters holds of the
  token of an emission outside of quotes.
* `Draft.exists_gap_emit` — an emission adds its token, perhaps behind a space.
* `Query.exists_draft_of_render` — the draft that a rendered text is taken from.
-/

namespace PersistenceQuery

open Text

/-! ### Numbers -/

/-- A character of a number without its sign. -/
def isFigure (c : Char) : Bool := c.isDigit || c == '.'

/-- The figures of a number, behind a minus sign if it is negative. -/
def Signed (negative : Bool) (cs : List Char) : Prop :=
  ∃ figures, figures.all isFigure = true ∧ cs = if negative then '-' :: figures else figures

theorem figure_of_isDigit (c : Char) (h : c.isDigit = true) : isFigure c = true := by
  rw [isFigure, h, Bool.true_or]

theorem figures_decimal (n : Nat) : (decimal n).all isFigure = true :=
  List.all_eq_true.2 fun c hc =>
    figure_of_isDigit c (Nat.isDigit_of_mem_toDigits (by decide) (by decide) hc)

theorem signed_toString (n : Int) : Signed (decide (n < 0)) (toString n).toList := by
  refine ⟨decimal n.natAbs, figures_decimal _, ?_⟩
  rw [toList_toString_int]
  cases decide (n < 0) <;> rfl

theorem signed_floatLiteral {x : Binary64} (h : x.isFinite = true) :
    Signed x.negative (floatLiteral x) := by
  have hfigures : ∀ {cs : List Char}, cs.all Char.isDigit = true → cs.all isFigure = true :=
    fun hcs => List.all_eq_true.2 fun c hc => figure_of_isDigit c (List.all_eq_true.1 hcs c hc)
  obtain ⟨units, places, hunits, hplaces, htext, -⟩ := (x.shortest .up).shows_pointed
  refine ⟨(x.shortest .up).pointed, ?_, ?_⟩
  · rw [htext, List.all_append, List.all_cons, hfigures hunits, hfigures hplaces]
    rfl
  · rw [Binary64.floatLiteral_eq h]
    cases x.negative <;> rfl

/-- The literal of the value begins with a minus sign. -/
def Value.isNegative : Value → Bool
  | .int n => n < 0
  | .float x => x.negative
  | _ => false

theorem Expr.isNegativeLiteral_literal (v : Value) :
    (Expr.literal v).isNegativeLiteral = v.isNegative := by
  cases v <;> rfl

/-- A negative literal is a minus sign with figures behind it. -/
theorem Value.exists_signed_literal {v : Value} {text : String} (h : v.literal = .ok text)
    (hsign : v.isNegative = true) :
    ∃ figures, figures.all isFigure = true ∧ text.toList = '-' :: figures := by
  cases literal_eq_ok_iff.1 h with
  | int n =>
    obtain ⟨figures, hfigures, htext⟩ := signed_toString n.toInt
    rw [isNegative, decide_eq_true_eq, Int64.lt_iff_toInt_lt, Int64.toInt_zero] at hsign
    rw [decide_eq_true hsign] at htext
    exact ⟨figures, hfigures, htext⟩
  | float hfinite =>
    obtain ⟨figures, hfigures, htext⟩ := signed_floatLiteral hfinite
    rw [isNegative] at hsign
    rw [hsign] at htext
    exact ⟨figures, hfigures, by rw [String.toList_ofList, htext]; rfl⟩
  | marked hv => cases hv <;> cases hsign
  | _ => cases hsign

/-! ### Tokens -/

/-- A character that a token may show outside of quotes, beside those of its words and names. -/
def isTokenChar (c : Char) : Bool := isNameChar c || "'\x7b\x7d .:".toList.contains c

section
variable {p : Char → Bool} (hp : ∀ c, isTokenChar c = true → p c = true)
include hp

theorem all_of_isNameChar {cs : List Char} (h : cs.all isNameChar = true) : cs.all p = true :=
  List.all_eq_true.2 fun c hc =>
    hp c (by rw [isTokenChar, List.all_eq_true.1 h c hc, Bool.true_or])

theorem Text.Clear.of_isNameChar {cs : List Char} (h : cs.all isNameChar = true) : Clear p cs :=
  .of_notMem (fun hmem => absurd (List.all_eq_true.1 h _ hmem) (by decide))
    (all_of_isNameChar hp h)

theorem Text.Clear.of_isTokenChar {cs : List Char} (h : '\'' ∉ cs)
    (hcs : cs.all isTokenChar = true) : Clear p cs :=
  .of_notMem h (List.all_eq_true.2 fun c hc => hp c (List.all_eq_true.1 hcs c hc))

theorem Text.Clear.of_signed {negative : Bool} {cs : List Char} (h : Signed negative cs)
    (hsign : negative = true → p '-' = true) : Clear p cs := by
  obtain ⟨figures, hfigures, rfl⟩ := h
  have hfigure : ∀ c ∈ figures, isTokenChar c = true := fun c hc => by
    have hc := List.all_eq_true.1 hfigures c hc
    rw [isFigure, Bool.or_eq_true, beq_iff_eq] at hc
    rcases hc with hdigit | rfl
    · rw [isTokenChar, isNameChar, Char.isAlphanum, hdigit]
      simp
    · decide
  have hquote : '\'' ∉ figures := fun hmem =>
    absurd (List.all_eq_true.1 hfigures _ hmem) (by decide)
  have hclear : Clear p figures := .of_isTokenChar hp hquote (List.all_eq_true.2 hfigure)
  cases negative with
  | false => exact hclear
  | true =>
    have hminus : Clear p ['-'] := .of_notMem (by decide) (by simp [hsign rfl])
    exact hminus.append hclear

theorem Text.Clear.of_markedLiteral {marker : String} (h : marker.toList.all isNameChar = true)
    (s : String) : Clear p (markedLiteral marker s).toList := by
  have hopen : Clear p ['{'] := .of_isTokenChar hp (by decide) (by decide)
  have hspace : Clear p [' '] := .of_isTokenChar hp (by decide) (by decide)
  have hclose : Clear p ['}'] := .of_isTokenChar hp (by decide) (by decide)
  have hquoted : Clear p (Text.quote s).toList := .quote (hp _ (by decide)) s
  have hlead := (hopen.append (.of_isNameChar hp h)).append hspace
  simpa [markedLiteral] using (hlead.append hquoted).append hclose

theorem Text.Clear.of_placeholder {s : String} (h : isParameterName s = true) :
    Clear p (placeholder s).toList := by
  have hcolon : Clear p [':'] := .of_isTokenChar hp (by decide) (by decide)
  rw [placeholder, String.toList_append]
  exact hcolon.append (.of_isNameChar hp (isNameChar_of_isParameterName h))

omit hp in
theorem Text.Clear.of_spelled {cs : List Char} (h : cs.all (fun c => p c && isNoQuote c) = true) :
    Clear p cs := by
  rw [List.all_eq_true] at h
  refine .of_notMem (fun hmem => ?_) (List.all_eq_true.2 fun c hc => ?_)
  · have hquote := (Bool.and_eq_true_iff.1 (h _ hmem)).2
    exact absurd hquote (by decide)
  · exact (Bool.and_eq_true_iff.1 (h c hc)).1

/-- A literal shows outside of quotes its names, its figures and their sign, and token
characters. -/
theorem Value.clear_literal {v : Value} {text : String} (h : v.literal = .ok text)
    (hn : ∀ s ∈ v.names, s.toList.all (fun c => p c && isNoQuote c) = true)
    (hsign : v.isNegative = true → p '-' = true) : Clear p text.toList := by
  cases literal_eq_ok_iff.1 h with
  | null => exact .of_isNameChar hp (by decide)
  | bool b => cases b <;> exact .of_isNameChar hp (by decide)
  | int n =>
    refine .of_signed hp (signed_toString n.toInt) fun hneg => hsign ?_
    rw [isNegative, decide_eq_true_eq, Int64.lt_iff_toInt_lt, Int64.toInt_zero]
    exact of_decide_eq_true hneg
  | float hfinite =>
    rw [String.toList_ofList]
    exact .of_signed hp (signed_floatLiteral hfinite) hsign
  | string s => exact .quote (hp _ (by decide)) s
  | marked hv => cases hv <;> exact .of_markedLiteral hp (by decide) _
  | enum _ _ =>
    have hpoint : (p '.' && isNoQuote '.') = true := by rw [hp '.' (by decide)]; rfl
    exact .of_spelled (all_of_enumNames hpoint hn)

/-- What holds of token characters and of the words and names that an emission spells holds of
its token outside of quotes; parentheses and the sign of a negative literal are left to the one
who asks. -/
theorem Emission.clear_token {e : Emission} (hopening : e ≠ .opening) (hclosing : e ≠ .closing)
    (hspells : e.Spells fun c => p c && isNoQuote c)
    (hname : ∀ s v, e = .parameter s v → isParameterName s = true) {b : Binder}
    (hsign : ∀ v, e = .value v → b.mode = .inline → v.isNegative = true → p '-' = true) :
    Clear p (e.token b).toList := by
  have hempty : Clear p [] := .of_isTokenChar hp List.not_mem_nil rfl
  cases e with
  | word w => exact .of_spelled hspells
  | name s => exact .of_spelled hspells
  | quoted s => exact .quote (hp _ (by decide)) s
  | space => exact hempty
  | stop f => exact hempty
  | opening => exact absurd rfl hopening
  | closing => exact absurd rfl hclosing
  | value v =>
    rcases token_value_cases b v with ⟨hmode, hliteral⟩ | ⟨-, htoken⟩ | ⟨-, -, htoken⟩
    · exact Value.clear_literal hp hliteral hspells (hsign v rfl hmode)
    · rw [htoken]
      exact .of_placeholder hp (isParameterName_placeholderName _)
    · rw [htoken]
      exact hempty
  | parameter s v =>
    rcases token_parameter_cases b s v with htoken | htoken
    · rw [htoken]
      exact .of_placeholder hp (hname s v rfl)
    · rw [htoken]
      exact hempty

end

/-! ### Drafts -/

/-- An emission adds its token to a draft, perhaps behind a space. -/
theorem Draft.exists_gap_emit {d d' : Draft} {e : Emission} (h : d.emit e = (d', none)) :
    ∃ gap, (gap = [] ∨ gap = [' '])
      ∧ d'.text.toList = d.text.toList ++ (gap ++ (e.token d.binder).toList) := by
  by_cases hspace : e = .space
  · subst hspace
    refine ⟨[], .inl rfl, ?_⟩
    rw [eq_of_emit h, if_pos rfl, Draft.space]
    split <;> exact (List.append_nil _).symm
  · rw [text_of_emit h hspace, text_write, added, gap]
    by_cases hclose : standsClose (e.token d.binder) = true
    · exact ⟨[], .inl rfl, by rw [if_pos hclose, String.toList_append]; rfl⟩
    · rw [if_neg hclose]
      cases d.spacePending with
      | false => exact ⟨[], .inl rfl, by simp⟩
      | true => exact ⟨[' '], .inr rfl, by simp⟩

/-- A rendered text is that of the draft in which the query was written to its end, trimmed; the
parameters that were written have proper names. -/
theorem Query.exists_draft_of_render {q : Query} {supplied : Option Bindings} {mode : Mode}
    {r : Rendered} (h : q.render .standard supplied mode = .ok r) :
    ∃ d, (Draft.start (q.binder supplied mode)).emitAll (Dialect.standard.write q.part) = (d, none)
      ∧ r.text.toList = trim d.text.toList
      ∧ ∀ s v, Emission.parameter s v ∈ Dialect.standard.write q.part →
        isParameterName s = true := by
  obtain ⟨hshape, -, hr⟩ := Query.render_eq_ok.1 h
  obtain ⟨d, hemit, hfinish⟩ := Binder.rendered_eq_ok.1 hr
  obtain ⟨-, -, htext, -⟩ := Draft.finish_eq_ok.1 hfinish
  have hwritten : Written (fun _ => True) (Dialect.standard.write q.part) q.nodes :=
    Query.written Dialect.standard_hasWords q fun _ _ => trivial
  refine ⟨d, hemit, by rw [htext, String.toList_ofList], fun s v hs => ?_⟩
  exact Query.isParameterName_of_checkShape hshape (hwritten.mem_of_parameter hs)

end PersistenceQuery
