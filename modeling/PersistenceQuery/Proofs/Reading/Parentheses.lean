import PersistenceQuery.Proofs.Reading.Tight
import PersistenceQuery.Proofs.Text.Quotation

/-!
# Parentheses that are needed

No pair of parentheses in the text of an expression can be left out.  A text without quotes has as
many opening parentheses among its characters as among its lexemes.  Without one of them it has
fewer than the reading of the whole text needs, so what it is read as is another expression, even
where only the grouping of associative operators is compared.

## Main results

* `Readable.quote_notMem` — the text of a regular expression has no quotes.
* `Readable.parentheses_needed` — **without a pair of parentheses the text is not read as the
  expression.**
-/

namespace PersistenceQuery

/-! ### Parentheses of a text -/

namespace Lexer

/-- A lexeme that goes on is no parenthesis. -/
theorem openings_flush_of_join {x y : Lexer} {c : Char} (h : x.join? c = some y) :
    openings y.flush = 0 := by
  cases x with
  | between => cases h
  | word cs | parameter cs =>
    rw [join?, Option.ite_none_right_eq_some, Option.some.injEq] at h
    rw [← h.2]
    rfl
  | sign cs =>
    rw [join?_sign, Option.ite_none_right_eq_some, Option.some.injEq] at h
    have hne : String.ofList (cs ++ [c]) ≠ "(" := by
      intro heq
      have hmem : c ∈ "(".toList := by
        rw [← heq, String.toList_ofList]
        exact List.mem_append_right cs List.mem_cons_self
      rw [List.mem_singleton.1 hmem] at h
      cases h.1
    rw [← h.2]
    exact openings_sign hne []
  | quoted cs =>
    rw [join?_quoted, Option.some.injEq] at h
    rw [← h]
    split <;> rfl
  | closed cs =>
    rw [join?_closed, Option.ite_none_right_eq_some, Option.some.injEq] at h
    rw [← h.2]
    rfl

/-- Of what a character begins, only an opening parenthesis is one. -/
theorem openings_begins (c : Char) :
    openings (begins c).1 = [c].count '(' ∧ openings (begins c).2.flush = 0 := by
  by_cases hc : c = '('
  · subst hc
    decide
  · have hsign : String.singleton c ≠ "(" := by
      intro heq
      have hlist := congrArg String.toList heq
      rw [String.toList_singleton] at hlist
      exact hc (List.singleton_inj.1 hlist)
    have hne : [c].count '(' = 0 := by
      rw [List.count_eq_zero, List.mem_singleton]
      exact Ne.symm hc
    rw [hne, begins]
    -- a blank, a quote, a colon, a word, a comparison or a sign of its own
    split
    · exact ⟨rfl, rfl⟩
    · split
      · exact ⟨rfl, rfl⟩
      · split
        · exact ⟨rfl, rfl⟩
        · split
          · exact ⟨rfl, rfl⟩
          · split
            · exact ⟨rfl, openings_sign hsign []⟩
            · exact ⟨openings_sign hsign [], rfl⟩

/-- Outside of quotes every opening parenthesis of a text is a lexeme. -/
theorem openings_read {x : Lexer} (hx : x.isUnquoted = true) (hflush : openings x.flush = 0)
    {cs : List Char} (hcs : '\'' ∉ cs) : openings (x.read cs) = cs.count '(' := by
  induction cs generalizing x with
  | nil => exact hflush
  | cons c cs ih =>
    rw [List.mem_cons, not_or] at hcs
    cases hjoin : x.join? c with
    | some y =>
      have hne : c ≠ '(' := by
        rintro rfl
        rw [join?_of_isDelimiter (isOutside_of_isUnquoted hx) (by decide)] at hjoin
        cases hjoin
      rw [read_cons_of_join hjoin, List.count_cons_of_ne hne]
      exact ih (isUnquoted_join? hx hjoin) (openings_flush_of_join hjoin) hcs.2
    | none =>
      obtain ⟨hbegins, hnext⟩ := openings_begins c
      rw [read_cons_of_none hjoin, openings_append, openings_append, hflush, hbegins,
        ih (isUnquoted_begins (Ne.symm hcs.1)) hnext hcs.2, Nat.zero_add,
        ← List.count_append, List.singleton_append]

end Lexer

/-- A text without quotes has its parentheses among its lexemes. -/
theorem openings_lexemes {s : String} (h : '\'' ∉ s.toList) :
    openings (lexemes s) = s.toList.count '(' :=
  Lexer.openings_read rfl rfl h

/-! ### Quotes of a text -/

namespace Expr

variable {s : String}

theorem quoted_mem_operandTokens {parent : Strength} {side : Side} {e : Expr} :
    Lexeme.quoted s ∈ e.operandTokens parent side ↔ Lexeme.quoted s ∈ e.tokens := by
  rw [operandTokens]
  split <;> simp

theorem quoted_notMem_negation (negated : Bool) : Lexeme.quoted s ∉ negation negated := by
  cases negated <;> simp [negation]

end Expr

/-- Nothing is quoted in a regular expression. -/
theorem Readable.quoted_notMem_tokens {e : Expr} (h : Readable .full e)
    (hregular : ∀ n ∈ e.nodes, n.isRegular = true) (s : String) : Lexeme.quoted s ∉ e.tokens := by
  -- words and signs are not quoted, and the operands come to them by induction
  induction h with
  | path h => simp [Expr.tokens_path h]
  | parameter v h => simp [Expr.tokens_parameter]
  | arithmetic op hl hr ihl ihr =>
    rw [Expr.nodes, List.forall_mem_cons, List.forall_mem_append] at hregular
    simp [Expr.tokens_arithmetic, Expr.quoted_mem_operandTokens, ihl hregular.2.1,
      ihr hregular.2.2]
  | negate h ih =>
    rw [Expr.nodes, List.forall_mem_cons] at hregular
    simp [Expr.tokens_negate h.isNegativeLiteral_eq_false, Expr.quoted_mem_operandTokens,
      ih hregular.2]
  | comparison op hl hr ihl ihr =>
    rw [Expr.nodes, List.forall_mem_cons, List.forall_mem_append] at hregular
    simp [Expr.tokens_comparison, Expr.quoted_mem_operandTokens, ihl hregular.2.1,
      ihr hregular.2.2]
  | @logical op es h ih =>
    rw [Expr.nodes, List.forall_mem_cons, nodesOfList_eq, List.forall_mem_flatMap] at hregular
    have hes : ∀ g ∈ es, Lexeme.quoted s ∉ g.tokens := fun g hg => ih g hg (hregular.2 g hg)
    rcases es with _ | ⟨e, _ | ⟨f, es⟩⟩
    · have hidentity : ∃ w, lexemes op.identity = [.word w, .sign "=", .word "1"] := by
        cases op with
        | and => exact ⟨"1", by decide⟩
        | or => exact ⟨"0", by decide⟩
      obtain ⟨w, hw⟩ := hidentity
      simp [Expr.tokens_logical_nil, hw]
    · rw [Expr.tokens_logical_singleton]
      exact hes e List.mem_cons_self
    · rw [Expr.tokens_logical, List.mem_append, List.mem_flatMap, Expr.quoted_mem_operandTokens]
      rintro (hmem | ⟨g, hg, hmem⟩)
      · exact hes e List.mem_cons_self hmem
      · rw [List.mem_cons, Expr.quoted_mem_operandTokens] at hmem
        exact hes g (List.mem_cons_of_mem _ hg) (hmem.resolve_left (by simp))
  | not h ih =>
    rw [Expr.nodes, List.forall_mem_cons] at hregular
    simp [Expr.tokens_not, Expr.quoted_mem_operandTokens, ih hregular.2]
  | like escape negated hv hp ihv ihp =>
    rw [Expr.nodes, List.forall_mem_cons, List.forall_mem_append] at hregular
    cases escape with
    | none =>
      simp [Expr.tokens_like, Expr.quoted_mem_operandTokens, Expr.quoted_notMem_negation,
        escaping, ihv hregular.2.1, ihp hregular.2.2]
    | some c => cases hregular.1
  | between negated hv hlow hhigh ihv ihlow ihhigh =>
    rw [Expr.nodes, List.forall_mem_cons, List.forall_mem_append, List.forall_mem_append]
      at hregular
    simp [Expr.tokens_between, Expr.quoted_mem_operandTokens, Expr.quoted_notMem_negation,
      ihv hregular.2.1.1, ihlow hregular.2.1.2, ihhigh hregular.2.2]
  | @inList v es negated hne hv hes ihv ihes =>
    rw [Expr.nodes, List.forall_mem_cons, List.forall_mem_append, nodesOfList_eq,
      List.forall_mem_flatMap] at hregular
    have hmembers : ∀ g ∈ es, Lexeme.quoted s ∉ g.tokens := fun g hg =>
      ihes g hg (hregular.2.2 g hg)
    cases es with
    | nil => exact absurd rfl hne
    | cons e es =>
      have hothers : Lexeme.quoted s ∉ es.flatMap fun f => .sign "," :: f.tokens := by
        rw [List.mem_flatMap]
        rintro ⟨g, hg, hmem⟩
        exact hmembers g (List.mem_cons_of_mem _ hg)
          ((List.mem_cons.1 hmem).resolve_left (by simp))
      simp only [Expr.tokens_inList, List.mem_append, List.mem_cons, Expr.quoted_mem_operandTokens,
        Expr.quoted_notMem_negation, ihv hregular.2.1, hmembers e List.mem_cons_self, hothers]
      simp
  | isNull negated hv ih =>
    rw [Expr.nodes, List.forall_mem_cons] at hregular
    simp [Expr.tokens_isNull, Expr.quoted_mem_operandTokens, Expr.quoted_notMem_negation,
      ih hregular.2]

/-- The text of a regular expression has no quotes. -/
theorem Readable.quote_notMem {e : Expr} (h : Readable .full e)
    (hregular : ∀ n ∈ e.nodes, n.isRegular = true) {text : String}
    (htext : lexemes text = e.tokens) : '\'' ∉ text.toList := by
  intro hquote
  obtain ⟨s, hs⟩ := Lexer.exists_quoted_of_mem (x := .between) rfl hquote
  rw [← lexemes, htext] at hs
  exact h.quoted_notMem_tokens hregular s hs

/-! ### Without a pair of parentheses -/

/-- A text that has fewer parentheses than the reading of another one needs is not read as the
same, nor as anything that differs in the grouping of associative operators only. -/
theorem Reading.not_akin {text : String} {f g : Expr}
    (h : openings (lexemes text) < f.fewest (.level .or)) (hg : Reading .full text g) :
    ¬ Akin f g := by
  intro hakin
  have hfewest := Reads.fewest_le hg
  rw [fewestOfList_singleton, ← hakin.strength_eq_fewest_eq.2] at hfewest
  exact Nat.not_lt_of_le hfewest h

namespace Readable

/-- The text of an expression has one reading.  Without a pair of parentheses, or any opening one
and any closing one behind it, what remains cannot be read, or it is read as an expression that
differs in more than in the grouping of associative operators. -/
theorem parentheses_needed {e : Expr} (h : Readable .full e)
    (hregular : ∀ n ∈ e.nodes, n.isRegular = true) {b : Binder}
    (hbound : ∀ s v, Expr.parameter s v ∈ e.nodes → (b.valueFor s v).isSome = true) :
    ∃ r f, (Part.expr e).render .standard b = .ok r ∧ Reading .full r.text f ∧
      (∀ g, Reading .full r.text g → g = f) ∧
      ∀ as bs cs, r.text.toList = as ++ '(' :: (bs ++ ')' :: cs) →
        ∀ g, Reading .full (String.ofList (as ++ bs ++ cs)) g → ¬ Akin f g := by
  obtain ⟨f, hf, htight⟩ := h.exists_tight hregular
  obtain ⟨r, hr, htext⟩ := h.exists_rendered hbound hf.ne_nil
  have hread : Reading .full r.text f := by
    rw [Reading, htext]
    exact hf.weaken h.or_le_strength
  refine ⟨r, f, hr, hread, fun g hg => hg.unique hread, fun as bs cs hsplit g => ?_⟩
  have hquote := h.quote_notMem hregular htext
  have hremains : '\'' ∉ (String.ofList (as ++ bs ++ cs)).toList := by
    rw [hsplit] at hquote
    simp only [List.mem_append, List.mem_cons, not_or] at hquote
    simp only [String.toList_ofList, List.mem_append, not_or]
    exact ⟨⟨hquote.1, hquote.2.2.1⟩, hquote.2.2.2.2⟩
  -- one parenthesis less than there are in the text, and the reading needs them all
  have hless : openings (lexemes (String.ofList (as ++ bs ++ cs))) + 1 = openings e.tokens := by
    rw [openings_lexemes hremains, ← htext, openings_lexemes hquote, hsplit, String.toList_ofList]
    have hclosing : ')' ≠ '(' := by decide
    simp only [List.count_append, List.count_cons_self, List.count_cons_of_ne hclosing]
    omega
  have hfewest := f.fewest_mono (s := .aliased) (t := .or) (by decide)
  have hopenings := htight.openings_le
  exact Reading.not_akin (by omega)

end Readable

/-- Loans that are late, and cost more than a limit: differences inside products and differences,
and an operator of its own behind the minus sign and behind the word for negation. -/
def overdue : Expr :=
  .logical .and [
    .not (.logical .or [
      .isNull (.path ⟨["l", "dueAt"]⟩) false,
      .between (.path ⟨["l", "days"]⟩) (.path ⟨["l", "term"]⟩) (.path ⟨["l", "grace"]⟩) false]),
    .comparison .gt
      (.arithmetic .mul
        (.arithmetic .sub (.path ⟨["l", "days"]⟩)
          (.arithmetic .sub (.path ⟨["l", "term"]⟩) (.path ⟨["l", "grace"]⟩)))
        (.negate (.arithmetic .add (.path ⟨["l", "fee"]⟩) (.path ⟨["l", "fine"]⟩))))
      (.parameter "limit" none)]

theorem parentheses_needed_overdue :
    ∃ r f, (Part.expr overdue).render .standard
        (.start .placeholder (some (.ofList [("limit", .int 20)]))) = .ok r ∧
      r.text = "NOT (l.dueAt IS NULL OR l.days BETWEEN l.term AND l.grace)" ++
        " AND (l.days - (l.term - l.grace)) * -(l.fee + l.fine) > :limit" ∧
      Reading .full r.text f ∧ (∀ g, Reading .full r.text g → g = f) ∧
      ∀ as bs cs, r.text.toList = as ++ '(' :: (bs ++ ')' :: cs) →
        ∀ g, Reading .full (String.ofList (as ++ bs ++ cs)) g → ¬ Akin f g := by
  have hpath : ∀ s, Grammar.full.isName s = true → Readable .full (.path ⟨["l", s]⟩) := fun s hs =>
    .path ⟨List.cons_ne_nil _ _, by simpa using ⟨by decide, hs⟩⟩
  have hreadable : Readable .full overdue := by
    refine .logical _ (List.forall_mem_cons.2 ⟨.not ?_, List.forall_mem_singleton.2 ?_⟩)
    · refine .logical _ (List.forall_mem_cons.2 ⟨?_, List.forall_mem_singleton.2 ?_⟩)
      · exact .isNull _ (hpath _ (by decide))
      · exact .between _ (hpath _ (by decide)) (hpath _ (by decide)) (hpath _ (by decide))
    · refine .comparison _ (.arithmetic _ (.arithmetic _ ?_ ?_) (.negate ?_)) ?_
      · exact hpath _ (by decide)
      · exact .arithmetic _ (hpath _ (by decide)) (hpath _ (by decide))
      · exact .arithmetic _ (hpath _ (by decide)) (hpath _ (by decide))
      · exact .parameter _ (by decide)
  have hbound : ∀ s v, Expr.parameter s v ∈ overdue.nodes →
      ((Binder.start .placeholder (some (.ofList [("limit", .int 20)]))).valueFor s v).isSome
        = true := by
    intro s v hs
    have hlimit : s = "limit" ∧ v = none := by
      simpa [overdue, Expr.nodes, nodesOfList] using hs
    rw [hlimit.1, hlimit.2]
    decide
  obtain ⟨r, f, hr, hneeded⟩ := hreadable.parentheses_needed (by decide) hbound
  have htext : ((Part.expr overdue).render .standard
      (.start .placeholder (some (.ofList [("limit", .int 20)])))).toOption.map Rendered.text
        = some ("NOT (l.dueAt IS NULL OR l.days BETWEEN l.term AND l.grace)" ++
          " AND (l.days - (l.term - l.grace)) * -(l.fee + l.fine) > :limit") := by
    decide +kernel
  rw [hr] at htext
  exact ⟨r, f, hr, Option.some.inj htext, hneeded⟩

end PersistenceQuery
