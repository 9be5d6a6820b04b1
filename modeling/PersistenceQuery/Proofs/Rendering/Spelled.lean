import Mathlib.Data.List.Chain
import PersistenceQuery.Proofs.Binding.Literal
import PersistenceQuery.Proofs.Rendering.Bindings

/-!
# How a rendered text is read

No token of a rendered text runs into the next one.  Between two emissions there is a space asked
for, or a sign that ends whatever stands in front of it; so the lexemes of the text are those of
the tokens, one after the other.

## Main definitions

* `Emission.Apart` — one emission may follow another directly.
* `Binder.spelled` — the lexemes of the tokens.

## Main results

* `Written.isChain` — in a layout every emission may follow the one in front of it.
* `Draft.lexemes_emitAll` — the text of a draft is read as its tokens.
* `Binder.lexemes_rendered` — and so is the finished text.
-/

namespace PersistenceQuery

open Text

namespace Emission

/-- Whatever follows is read apart: behind a space, a parenthesis, a separator or a minus sign. -/
def isOpen : Emission → Bool
  | .space | .opening => true
  | .word w => isSeparator w || w == "-"
  | _ => false

/-- Whatever stands in front is read apart. -/
def isClosing : Emission → Bool
  | .space | .opening | .closing => true
  | .word w => isSeparator w
  | _ => false

/-- The second emission may follow the first one directly. -/
def Apart (e f : Emission) : Prop := e.isOpen = true ∨ f.isClosing = true

/-- The words and names of the emission hold neither quotes nor colons. -/
def IsPlain : Emission → Prop
  | .word w => isPlain w = true
  | .name s => isPlain s = true
  | .value v => ∀ s ∈ v.names, isPlain s = true
  | _ => True

/-- The characters of the words and names of the emission satisfy `p`. -/
def Spells (p : Char → Bool) : Emission → Prop
  | .word w => w.toList.all p = true
  | .name s => s.toList.all p = true
  | .value v => ∀ s ∈ v.names, s.toList.all p = true
  | _ => True

end Emission

/-! ### Layouts -/

namespace Written

variable {P : String → Prop} {es as bs : List Emission} {ns : List Expr}

theorem isChain_insert {e : Emission} (hclosing : e.isClosing = true) (hopen : e.isOpen = true)
    (has : as.IsChain Emission.Apart) (hbs : bs.IsChain Emission.Apart) :
    (as ++ e :: bs).IsChain Emission.Apart := by
  refine List.isChain_append.2 ⟨has, List.isChain_cons.2 ⟨fun f _ => .inl hopen, hbs⟩, ?_⟩
  intro a _ f hf
  rw [List.head?_cons, Option.mem_some_iff] at hf
  exact .inr (hf ▸ hclosing)

theorem isChain_parenthesized (hes : es.IsChain Emission.Apart) :
    (Emission.parenthesized es).IsChain Emission.Apart := by
  refine List.isChain_cons.2 ⟨fun f _ => .inl rfl, List.isChain_append.2 ⟨hes, ?_, ?_⟩⟩
  · exact List.isChain_singleton _
  · intro a _ f hf
    rw [List.head?_cons, Option.mem_some_iff] at hf
    exact .inr (hf ▸ rfl)

/-- In a layout every emission may follow the one in front of it. -/
theorem isChain (h : Written P es ns) : es.IsChain Emission.Apart := by
  induction h with
  | nothing => exact List.isChain_nil
  | inside _ _ _ ih => exact ih
  | parenthesized _ ih => exact isChain_parenthesized ih
  | minus _ ih => exact List.isChain_cons.2 ⟨fun f _ => .inl rfl, ih⟩
  | applied _ _ ih =>
    refine List.isChain_cons.2 ⟨?_, isChain_parenthesized ih⟩
    intro f hf
    rw [Emission.parenthesized, List.head?_cons, Option.mem_some_iff] at hf
    exact .inr (hf ▸ rfl)
  | spaced _ _ iha ihb => exact isChain_insert rfl rfl iha ihb
  | separated h _ _ iha ihb =>
    refine isChain_insert h ?_ iha ihb
    rw [Emission.isOpen, h, Bool.true_or]
  | _ => exact List.isChain_singleton _

/-- What holds of the characters of the language and of those of the names in a layout holds of all
that it spells. -/
theorem spells_of_mem {p : Char → Bool} (hword : ∀ c, isWordChar c = true → p c = true)
    (hdot : p '.' = true) (hcomma : p ',' = true)
    (h : Written (fun s => s.toList.all p = true) es ns) : ∀ e ∈ es, e.Spells p := by
  have hwords : ∀ {w : String}, isWord w = true → w.toList.all p = true := by
    intro w hw
    rw [isWord, Bool.and_eq_true] at hw
    exact List.all_eq_true.2 fun c hc => hword c (List.all_eq_true.1 hw.2 c hc)
  have hseparators : ∀ {w : String}, isSeparator w = true → w.toList.all p = true := by
    intro w hw
    simp only [isSeparator, List.contains_eq_mem, decide_eq_true_eq, List.mem_cons,
      List.not_mem_nil, or_false] at hw
    have hspace := hword ' ' rfl
    rcases hw with rfl | rfl | rfl
    · rw [show ", ".toList = [',', ' '] from rfl, List.all_cons, List.all_cons, hcomma, hspace]
      rfl
    · exact hwords (w := " AND ") rfl
    · exact hwords (w := " OR ") rfl
  intro e he
  cases h.pieces e he with
  | value hnames => exact hnames
  | name hname => exact hname
  | path hnames => exact all_pathText hdot hnames
  | word hw => exact hw.elim hwords hseparators
  | _ => trivial

/-- The emissions of a layout are plain if its names are. -/
theorem isPlain_of_mem (h : Written (fun s => isPlain s = true) es ns) : ∀ e ∈ es, e.IsPlain := by
  have hword : ∀ c, isWordChar c = true → isPlainChar c = true := by
    intro c hc
    have hquote : c ≠ '\'' := fun heq => absurd (heq ▸ hc) (by decide)
    have hcolon : c ≠ ':' := fun heq => absurd (heq ▸ hc) (by decide)
    simp [isPlainChar, hquote, hcolon]
  intro e he
  have hspells := spells_of_mem hword rfl rfl h e he
  cases e <;> exact hspells

/-- What a layout binds is among the expressions that it writes. -/
theorem exists_of_request (h : Written P es ns) (hstop : ∀ fault, Emission.stop fault ∉ es)
    {e : Emission} (he : e ∈ es) {r : Request} (hr : e.request? = some r) :
    ∃ n ∈ ns, n.request? = some r := by
  have hrequest : r ∈ es.filterMap Emission.request? := List.mem_filterMap.2 ⟨e, he, hr⟩
  rw [h.requests_eq hstop, List.mem_filterMap] at hrequest
  exact hrequest

end Written

/-! ### Drafts -/

namespace Draft

/-- What is being read at the end of the draft. -/
def lexer (d : Draft) : Lexer := Lexer.between.after d.text.toList

/-- The lexemes of the draft. -/
def lexemes (d : Draft) : List Lexeme := Lexer.between.read d.text.toList

/-- Behind a space or an opening parenthesis the last lexeme is complete. -/
theorem lexer_of_refusesSpace {d : Draft} (hout : d.lexer.isOutside = true)
    (h : refusesSpace d.text = true) : d.lexer = .between := by
  rw [refusesSpace, String.back?_eq] at h
  rw [lexer] at hout ⊢
  -- only the last character counts
  rcases List.eq_nil_or_concat d.text.toList with hnil | ⟨cs, c, hcs⟩
  · rw [hnil]
    rfl
  · rw [hcs, List.concat_eq_append, List.getLast?_concat] at h
    rw [hcs, List.concat_eq_append, Lexer.after_append] at hout ⊢
    have hc : isDelimiter c = true := by
      simp only [Bool.or_eq_true, beq_iff_eq] at h
      rcases h with rfl | rfl <;> rfl
    exact Lexer.step_eq_between hout hc

/-- A token that stands close to what is in front of it ends it. -/
theorem apart_of_standsClose {x : Lexer} (hx : x.isOutside = true) {token : String}
    (h : standsClose token = true) : x.Apart token.toList := by
  intro c hc
  rw [standsClose, String.front?_eq, hc] at h
  refine Lexer.join?_of_isDelimiter hx ?_
  simp only [Bool.or_eq_true, beq_iff_eq] at h
  rcases h with (rfl | rfl) | rfl <;> rfl

/-- A token behind a space or apart from the draft is read on its own. -/
theorem lexemes_write {d : Draft} {token : String} (hout : d.lexer.isOutside = true)
    (htoken : (Lexer.between.after token.toList).isOutside = true)
    (hfit : d.spacePending = true ∨ d.lexer.Apart token.toList) :
    (d.write token).lexemes = d.lexemes ++ Lexer.between.read token.toList
      ∧ (d.write token).lexer.isOutside = true
      ∧ (token ≠ "" → (d.write token).lexer = Lexer.between.after token.toList) := by
  simp only [lexemes, lexer] at hout hfit ⊢
  by_cases hspace : d.spacePending = true ∧ standsClose token = false
  · -- a space is written, and the token behind it
    have htext : (d.write token).text = d.text ++ " " ++ token := by simp [write, hspace]
    have hbetween : (Lexer.between.after d.text.toList).step ' ' = .between :=
      Lexer.step_of_isDelimiter hout rfl
    have hblank : Lexer.between.read (d.text.toList ++ [' ']) = Lexer.between.read d.text.toList :=
      Lexer.read_append_blanks hout (List.forall_mem_singleton.2 rfl)
    have hlexer : Lexer.between.after (d.text ++ " " ++ token).toList
        = Lexer.between.after token.toList := by
      rw [String.toList_append, String.toList_append, Lexer.after_append, Lexer.after_append]
      exact congrArg (·.after token.toList) hbetween
    rw [htext]
    refine ⟨?_, ?_, fun _ => hlexer⟩
    · rw [String.toList_append, Lexer.read_append, String.toList_append]
      · exact congrArg (· ++ _) hblank
      · rw [String.toList_append, Lexer.after_append]
        show ((Lexer.between.after d.text.toList).step ' ').Apart token.toList
        rw [hbetween]
        exact Lexer.apart_between _
    · rw [hlexer]
      exact htoken
  · -- no space was asked for, or the token ends what is in front of it
    have htext : (d.write token).text = d.text ++ token := by
      rw [not_and, Bool.not_eq_false] at hspace
      by_cases hpending : d.spacePending = true
      · simp [write, hspace hpending]
      · simp [write, hpending]
    have hapart : (Lexer.between.after d.text.toList).Apart token.toList := by
      rcases hfit with hpending | hapart
      · exact apart_of_standsClose hout (by simpa [hpending] using hspace)
      · exact hapart
    rw [htext, String.toList_append]
    refine ⟨Lexer.read_append hapart, ?_, ?_⟩
    · rw [Lexer.after_append]
      by_cases hne : token.toList = []
      · rw [hne]
        exact hout
      · rw [Lexer.after_of_apart hapart hne]
        exact htoken
    · intro hne
      rw [Lexer.after_append]
      exact Lexer.after_of_apart hapart fun hnil => hne (String.toList_eq_nil_iff.1 hnil)

/-- The text behind an emission that does not only ask for a space. -/
theorem text_of_emit {d d' : Draft} {e : Emission} (h : d.emit e = (d', none))
    (hspace : e ≠ .space) : d'.text = (d.write (e.token d.binder)).text := by
  rw [eq_of_emit h, if_neg hspace]

end Draft

/-! ### Tokens -/

theorem isParameterName_placeholderName (n : Nat) : isParameterName (placeholderName n) = true := by
  have hdigits : (Text.decimal n).all isNameChar = true := List.all_eq_true.2 fun c hc => by
    have hdigit : c.isDigit = true := Nat.isDigit_of_mem_toDigits (by decide) (by decide) hc
    rw [isNameChar, Char.isAlphanum, hdigit, Bool.or_true, Bool.true_or]
  rw [isParameterName, placeholderName, String.toList_append, toList_toString]
  show (_ && (['a', 'r', 'a', 'm'] ++ Text.decimal n).all isNameChar) = true
  rw [List.all_append, hdigits]
  decide

/-- A placeholder is read as the name behind its colon. -/
theorem read_placeholder {s : String} (h : isParameterName s = true) :
    Lexer.between.after (placeholder s).toList = .parameter s.toList
      ∧ Lexer.between.read (placeholder s).toList = [.parameter s] := by
  have hread := Lexer.read_parameter (isNameChar_of_isParameterName h)
  rw [String.ofList_toList] at hread
  rw [placeholder, String.toList_append]
  exact hread

/-- Whatever the binder is, the token of the emission closes its quotes. -/
def Emission.Closes (e : Emission) : Prop :=
  ∀ b, (Lexer.between.after (e.token b).toList).isOutside = true

/-- The token of a plain emission closes its quotes. -/
theorem Emission.closes_of_isPlain {e : Emission} (h : e.IsPlain)
    (hname : ∀ s v, e = .parameter s v → isParameterName s = true) : e.Closes := by
  intro b
  cases e with
  | word w => exact Lexer.isOutside_after rfl (Lexer.quote_notMem_of_plain h)
  | name s => exact Lexer.isOutside_after rfl (Lexer.quote_notMem_of_plain h)
  | quoted s => exact (Quiet.quote s).isOutside
  | value v =>
    rcases token_value_cases b v with ⟨-, hliteral⟩ | ⟨-, htoken⟩ | ⟨-, -, htoken⟩
    · exact (Value.quiet_literal hliteral h).isOutside
    · rw [htoken, (read_placeholder (isParameterName_placeholderName _)).1]
      rfl
    · rw [htoken]
      rfl
  | parameter s v =>
    rcases token_parameter_cases b s v with htoken | htoken
    · rw [htoken, (read_placeholder (hname s v rfl)).1]
      rfl
    · rw [htoken]
      rfl
  | opening =>
    rw [token_opening]
    decide
  | closing =>
    rw [token_closing]
    decide
  | _ => rfl

/-! ### Rendered texts -/

/-- The lexemes of the tokens of emissions, one after the other. -/
def Binder.spelled (b : Binder) : List Emission → List Lexeme
  | [] => []
  | e :: es => lexemes (e.token b) ++ (b.after e.request?.toList).spelled es

namespace Draft

/-- What the next emission finds: the last lexeme is complete, or ends before the next token. -/
def Fits (d : Draft) (es : List Emission) : Prop :=
  d.lexer = .between ∨ d.spacePending = true ∨ ∀ e ∈ es.head?, e.isClosing = true

/-- The token of a closing emission ends what stands in front of it. -/
theorem apart_of_isClosing {x : Lexer} (hx : x.isOutside = true) {e : Emission}
    (h : e.isClosing = true) (b : Binder) : x.Apart (e.token b).toList := by
  cases e with
  | space => exact apart_of_standsClose hx (by rw [Emission.token_space]; decide)
  | opening =>
    rw [Emission.token_opening]
    exact fun c hc => Lexer.join?_of_isDelimiter hx (Option.mem_some_iff.1 hc ▸ rfl)
  | closing => exact apart_of_standsClose hx (by rw [Emission.token_closing]; decide)
  | word w =>
    simp only [Emission.isClosing, isSeparator, List.contains_eq_mem, decide_eq_true_eq,
      List.mem_cons, List.not_mem_nil, or_false] at h
    rw [Emission.token_word]
    refine apart_of_standsClose hx ?_
    rcases h with rfl | rfl | rfl <;> decide
  | _ => cases h

/-- Behind the token of an open emission the last lexeme is complete. -/
theorem after_of_isOpen {e : Emission} (h : e.isOpen = true) (hspace : e ≠ .space) (b : Binder) :
    e.token b ≠ "" ∧ Lexer.between.after (e.token b).toList = .between := by
  cases e with
  | space => exact absurd rfl hspace
  | opening =>
    rw [Emission.token_opening]
    exact ⟨by decide, rfl⟩
  | word w =>
    simp only [Emission.isOpen, isSeparator, List.contains_eq_mem, Bool.or_eq_true,
      decide_eq_true_eq, List.mem_cons, List.not_mem_nil, or_false, beq_iff_eq] at h
    rw [Emission.token_word]
    rcases h with (rfl | rfl | rfl) | rfl <;> exact ⟨by decide, rfl⟩
  | _ => cases h

/-- One emission adds the lexemes of its token. -/
theorem lexemes_emit {d d' : Draft} {e : Emission} {es : List Emission}
    (h : d.emit e = (d', none)) (hchain : (e :: es).IsChain Emission.Apart) (hcloses : e.Closes)
    (hout : d.lexer.isOutside = true) (hfit : d.Fits (e :: es)) :
    d'.lexemes = d.lexemes ++ PersistenceQuery.lexemes (e.token d.binder)
      ∧ d'.lexer.isOutside = true ∧ d'.Fits es := by
  -- either the token is complete behind itself, or the next emission completes it
  have hnext : e.isOpen = true ∨ ∀ f ∈ es.head?, f.isClosing = true := by
    rcases Bool.eq_false_or_eq_true e.isOpen with hopen | hopen
    · exact .inl hopen
    · refine .inr ?_
      intro f hf
      rcases (List.isChain_cons.1 hchain).1 f hf with h | h
      · rw [hopen] at h
        cases h
      · exact h
  by_cases hspace : e = .space
  · -- a space adds no text; it is only remembered
    subst hspace
    simp only [emit, Prod.mk.injEq, and_true] at h
    rw [← h, space]
    split
    · next hrefuses =>
      exact ⟨(List.append_nil _).symm, hout, .inl (lexer_of_refusesSpace hout hrefuses)⟩
    · exact ⟨(List.append_nil _).symm, hout, .inr (.inl rfl)⟩
  · have htext := text_of_emit h hspace
    have hapart : d.spacePending = true ∨ d.lexer.Apart (e.token d.binder).toList := by
      rcases hfit with hbetween | hpending | hclosing
      · rw [hbetween]
        exact .inr (Lexer.apart_between _)
      · exact .inl hpending
      · exact .inr (apart_of_isClosing hout (hclosing e rfl) _)
    obtain ⟨hread, hout', hlexer⟩ :=
      lexemes_write hout (hcloses d.binder) hapart
    refine ⟨?_, ?_, ?_⟩
    · rw [lexemes, htext]
      exact hread
    · rw [lexer, htext]
      exact hout'
    · rcases hnext with hopen | hclosing
      · obtain ⟨hne, hbetween⟩ := after_of_isOpen hopen hspace d.binder
        refine .inl ?_
        rw [lexer, htext]
        exact (hlexer hne).trans hbetween
      · exact .inr (.inr hclosing)

/-- The text of a draft is read as its tokens. -/
theorem lexemes_emitAll {es : List Emission} {d d' : Draft} (h : d.emitAll es = (d', none))
    (hchain : es.IsChain Emission.Apart) (hcloses : ∀ e ∈ es, e.Closes)
    (hout : d.lexer.isOutside = true) (hfit : d.Fits es) :
    d'.lexemes = d.lexemes ++ d.binder.spelled es ∧ d'.lexer.isOutside = true := by
  induction es generalizing d with
  | nil =>
    simp only [emitAll_nil, Prod.mk.injEq, and_true] at h
    rw [← h]
    exact ⟨(List.append_nil _).symm, hout⟩
  | cons e es ih =>
    obtain ⟨d₁, he, hes⟩ := emitAll_cons_eq_none.1 h
    obtain ⟨hread, hout₁, hfit₁⟩ :=
      lexemes_emit he hchain (hcloses e List.mem_cons_self) hout hfit
    obtain ⟨hrest, hout'⟩ := ih hes (List.isChain_cons.1 hchain).2
      (fun f hf => hcloses f (List.mem_cons_of_mem _ hf)) hout₁ hfit₁
    refine ⟨?_, hout'⟩
    rw [hrest, hread, binder_of_emit he, List.append_assoc, Binder.spelled]

end Draft

/-- The finished text of a layout is read as its tokens and closes its quotes; the blanks that are
cut off at its ends do not count. -/
theorem Binder.lexemes_rendered_of_closes {b : Binder} {es : List Emission} {r : Rendered}
    (h : b.rendered es = .ok r) (hchain : es.IsChain Emission.Apart)
    (hcloses : ∀ e ∈ es, e.Closes) :
    lexemes r.text = b.spelled es ∧ (Lexer.between.after r.text.toList).isOutside = true := by
  obtain ⟨d, hemit, hfinish⟩ := Binder.rendered_eq_ok.1 h
  obtain ⟨-, -, htext, -⟩ := Draft.finish_eq_ok.1 hfinish
  obtain ⟨hread, hout⟩ := Draft.lexemes_emitAll hemit hchain hcloses rfl (.inl rfl)
  rw [htext, lexemes, String.toList_ofList, Lexer.read_trim hout]
  exact ⟨hread, Lexer.isOutside_trim hout⟩

/-- A layout whose names are plain closes its quotes. -/
theorem Written.closes_of_mem {es : List Emission} {ns : List Expr}
    (h : Written (fun s => isPlain s = true) es ns)
    (hnames : ∀ s v, Emission.parameter s v ∈ es → isParameterName s = true) :
    ∀ e ∈ es, e.Closes := fun e he =>
  Emission.closes_of_isPlain (h.isPlain_of_mem e he) fun s v heq => hnames s v (heq ▸ he)

theorem Binder.lexemes_rendered {b : Binder} {es : List Emission} {ns : List Expr} {r : Rendered}
    (h : b.rendered es = .ok r) (hwritten : Written (fun s => isPlain s = true) es ns)
    (hnames : ∀ s v, Expr.parameter s v ∈ ns → isParameterName s = true) :
    lexemes r.text = b.spelled es := by
  obtain ⟨d, hemit, -⟩ := Binder.rendered_eq_ok.1 h
  have hparams : ∀ s v, Emission.parameter s v ∈ es → isParameterName s = true := fun s v hs =>
    hnames s v (hwritten.mem_of_parameter hs)
  exact (Binder.lexemes_rendered_of_closes h hwritten.isChain (hwritten.closes_of_mem hparams)).1

end PersistenceQuery
