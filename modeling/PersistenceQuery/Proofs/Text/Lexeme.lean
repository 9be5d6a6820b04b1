import PersistenceQuery.Proofs.Text.Trimmed
import PersistenceQuery.Query.Shape
import PersistenceQuery.Text.Quoted

/-!
# Reading a text

The lexemes of a text, as anyone who reads it would cut it: words, parameters, quoted texts and
signs, each as long as it can be.  Blanks between them are left out.  Nothing here knows how the
text was written.

## Main definitions

* `Lexeme` — what a text is cut into.
* `Lexer`, `Lexer.read` — what is being read, and the lexemes of the characters that follow.
* `lexemes`, `placeholders` — the lexemes of a text, and the names behind colons among them.

## Main results

* `Lexer.read_append` — two texts can be read apart where the first lexeme of the second does not
  go on with the last one of the first.
* `Lexer.read_trim` — blanks at the ends of a text do not count.
* `Lexer.subset_of_word` — the characters of a word that is read stand in the text.
-/

namespace PersistenceQuery

open Text

/-- What a text is cut into. -/
inductive Lexeme
  /-- A name, a dotted path, a keyword or a number. -/
  | word (text : String)
  /-- A colon with the characters of a name behind it. -/
  | parameter (name : String)
  /-- The text that stands between quotes. -/
  | quoted (text : String)
  /-- A sign of one character, or several characters of comparison together. -/
  | sign (text : String)
  deriving DecidableEq, Repr

/-- A character of words. -/
def isPathChar (c : Char) : Bool := isNameChar c || c == '.'

/-- A character of the signs that may be longer than one character. -/
def isComparisonChar (c : Char) : Bool := c == '<' || c == '=' || c == '>'

/-- A character that ends every lexeme in front of it. -/
def isDelimiter (c : Char) : Bool := c == ' ' || c == '(' || c == ')' || c == ','

/-- A character that begins neither a quoted text nor a parameter. -/
def isPlainChar (c : Char) : Bool := c != '\'' && c != ':'

/-- A text that holds neither quotes nor colons. -/
def isPlain (s : String) : Bool := s.toList.all isPlainChar

/-- What is being read. -/
inductive Lexer
  /-- Nothing yet: the last lexeme is complete. -/
  | between
  | word (cs : List Char)
  | parameter (cs : List Char)
  | sign (cs : List Char)
  /-- A text whose closing quote has not come. -/
  | quoted (cs : List Char)
  /-- A text whose closing quote has come, unless another quote follows it. -/
  | closed (cs : List Char)

namespace Lexer

/-- The lexeme that ends here. -/
def flush : Lexer → List Lexeme
  | between => []
  | word cs => [.word (String.ofList cs)]
  | parameter cs => [.parameter (String.ofList cs)]
  | sign cs => [.sign (String.ofList cs)]
  | quoted cs | closed cs => [.quoted (String.ofList cs)]

/-- What a character begins: a lexeme of its own, or one that may go on. -/
def begins (c : Char) : List Lexeme × Lexer :=
  if isBlank c then ([], between)
  else if c = '\'' then ([], quoted [])
  else if c = ':' then ([], parameter [])
  else if isPathChar c then ([], word [c])
  else if isComparisonChar c then ([], sign [c])
  else ([.sign (String.singleton c)], between)

/-- The lexeme with one character more, if the character goes on with it. -/
def join? : Lexer → Char → Option Lexer
  | between, _ => none
  | word cs, c => if isPathChar c then some (word (cs ++ [c])) else none
  | parameter cs, c => if isNameChar c then some (parameter (cs ++ [c])) else none
  | sign cs, c => if isComparisonChar c then some (sign (cs ++ [c])) else none
  | quoted cs, c => some (if c = '\'' then closed cs else quoted (cs ++ [c]))
  | closed cs, c => if c = '\'' then some (quoted (cs ++ [c])) else none

/-- What is being read behind one character more. -/
def step (x : Lexer) (c : Char) : Lexer := (x.join? c).getD (begins c).2

/-- What is being read behind characters. -/
def after (x : Lexer) (cs : List Char) : Lexer := cs.foldl step x

/-- The lexemes of characters, the one that is being read first. -/
def read (x : Lexer) : List Char → List Lexeme
  | [] => x.flush
  | c :: cs => match x.join? c with
    | some y => y.read cs
    | none => x.flush ++ (begins c).1 ++ (begins c).2.read cs

/-- A quoted text is not left open. -/
def isOutside : Lexer → Bool
  | quoted _ => false
  | _ => true

end Lexer

/-- The lexemes of a text. -/
def lexemes (s : String) : List Lexeme := Lexer.between.read s.toList

/-- The name of a placeholder: a colon with an identifier behind it. -/
def Lexeme.placeholder? : Lexeme → Option String
  | parameter name => if isParameterName name then some name else none
  | _ => none

/-- The names of the placeholders in a text, as often as they occur. -/
def placeholders (s : String) : List String := (lexemes s).filterMap Lexeme.placeholder?

theorem isNameChar_of_isParameterName {s : String} (h : isParameterName s = true) :
    s.toList.all isNameChar = true := by
  rw [isParameterName] at h
  split at h
  · cases h
  · next c cs hcs =>
    rw [Bool.and_eq_true] at h
    rw [hcs, List.all_cons, h.2, Bool.and_true, isNameChar]
    rw [Bool.or_eq_true] at h ⊢
    rcases h.1 with halpha | hscore
    · exact .inl (by rw [Char.isAlphanum, halpha, Bool.true_or])
    · exact .inr hscore

namespace Lexer

/-! ### One character more -/

section
variable {x y : Lexer} {c : Char} (ds : List Char)

theorem join?_between (c : Char) : between.join? c = none := rfl

theorem join?_word :
    (word ds).join? c = if isPathChar c then some (word (ds ++ [c])) else none := rfl

theorem join?_parameter :
    (parameter ds).join? c = if isNameChar c then some (parameter (ds ++ [c])) else none := rfl

theorem join?_sign :
    (sign ds).join? c = if isComparisonChar c then some (sign (ds ++ [c])) else none := rfl

theorem join?_quoted :
    (quoted ds).join? c = some (if c = '\'' then closed ds else quoted (ds ++ [c])) := rfl

theorem join?_closed :
    (closed ds).join? c = if c = '\'' then some (quoted (ds ++ [c])) else none := rfl

theorem join?_quoted_of_ne (hc : c ≠ '\'') : (quoted ds).join? c = some (quoted (ds ++ [c])) := by
  rw [join?_quoted, if_neg hc]

theorem join?_closed_of_ne (hc : c ≠ '\'') : (closed ds).join? c = none := if_neg hc

theorem step_of_join (h : x.join? c = some y) : x.step c = y := by
  rw [step, h, Option.getD_some]

theorem step_of_none (h : x.join? c = none) : x.step c = (begins c).2 := by
  rw [step, h, Option.getD_none]

theorem read_cons_of_join (h : x.join? c = some y) (cs : List Char) :
    x.read (c :: cs) = y.read cs := by
  rw [read, h]

theorem read_cons_of_none (h : x.join? c = none) (cs : List Char) :
    x.read (c :: cs) = x.flush ++ (begins c).1 ++ (begins c).2.read cs := by
  rw [read, h]

end

/-! ### Reading two texts apart -/

theorem after_append (x : Lexer) (as bs : List Char) :
    x.after (as ++ bs) = (x.after as).after bs := List.foldl_append

@[simp] theorem after_nil (x : Lexer) : x.after [] = x := rfl

@[simp] theorem after_cons (x : Lexer) (c : Char) (cs : List Char) :
    x.after (c :: cs) = (x.step c).after cs := rfl

@[simp] theorem read_nil (x : Lexer) : x.read [] = x.flush := rfl

theorem read_cons_of_apart {x : Lexer} {c : Char} (h : x.join? c = none) (cs : List Char) :
    x.read (c :: cs) = x.flush ++ between.read (c :: cs) := by
  rw [read_cons_of_none h, read_cons_of_none (join?_between c), List.append_assoc]
  rfl

theorem step_of_apart {x : Lexer} {c : Char} (h : x.join? c = none) :
    x.step c = between.step c := by
  rw [step_of_none h, step_of_none (join?_between c)]

/-- The first of the characters does not go on with what is being read. -/
def Apart (x : Lexer) (cs : List Char) : Prop := ∀ c ∈ cs.head?, x.join? c = none

theorem apart_between (cs : List Char) : between.Apart cs := fun _ _ => rfl

theorem read_of_apart {x : Lexer} {cs : List Char} (h : x.Apart cs) :
    x.read cs = x.flush ++ between.read cs := by
  cases cs with
  | nil => exact (List.append_nil _).symm
  | cons c cs => exact read_cons_of_apart (h c rfl) cs

theorem after_of_apart {x : Lexer} {cs : List Char} (h : x.Apart cs) (hne : cs ≠ []) :
    x.after cs = between.after cs := by
  cases cs with
  | nil => exact absurd rfl hne
  | cons c cs => rw [after_cons, step_of_apart (h c rfl), after_cons]

/-- Where the second text does not go on with the last lexeme of the first, they are read one
after the other. -/
theorem read_append {x : Lexer} {as bs : List Char} (h : (x.after as).Apart bs) :
    x.read (as ++ bs) = x.read as ++ between.read bs := by
  -- the first text is gone through, whatever is being read in front of it
  induction as generalizing x with
  | nil => exact read_of_apart h
  | cons a as ih =>
    rw [after_cons] at h
    rw [List.cons_append]
    cases hjoin : x.join? a with
    | some y =>
      rw [step_of_join hjoin] at h
      rw [read_cons_of_join hjoin, read_cons_of_join hjoin]
      exact ih h
    | none =>
      rw [step_of_none hjoin] at h
      rw [read_cons_of_none hjoin, read_cons_of_none hjoin, ih h]
      simp only [List.append_assoc]

/-! ### Delimiters -/

theorem join?_of_isDelimiter {x : Lexer} {c : Char} (hx : x.isOutside = true)
    (hc : isDelimiter c = true) : x.join? c = none := by
  have hcases : c = ' ' ∨ c = '(' ∨ c = ')' ∨ c = ',' := by simpa [isDelimiter, or_assoc] using hc
  -- nothing that may go on has such characters
  have hpath : isPathChar c = false := by rcases hcases with rfl | rfl | rfl | rfl <;> rfl
  have hname : isNameChar c = false := by rcases hcases with rfl | rfl | rfl | rfl <;> rfl
  have hcmp : isComparisonChar c = false := by rcases hcases with rfl | rfl | rfl | rfl <;> rfl
  have hquote : c ≠ '\'' := by rcases hcases with rfl | rfl | rfl | rfl <;> decide
  cases x with
  | between => rfl
  | word cs => simp [join?_word, hpath]
  | parameter cs => simp [join?_parameter, hname]
  | sign cs => simp [join?_sign, hcmp]
  | quoted cs => cases hx
  | closed cs => exact join?_closed_of_ne cs hquote

/-- Behind a delimiter the last lexeme is complete. -/
theorem step_of_isDelimiter {x : Lexer} {c : Char} (hx : x.isOutside = true)
    (hc : isDelimiter c = true) : x.step c = between := by
  rw [step_of_apart (join?_of_isDelimiter hx hc)]
  have hcases : c = ' ' ∨ c = '(' ∨ c = ')' ∨ c = ',' := by simpa [isDelimiter, or_assoc] using hc
  rcases hcases with rfl | rfl | rfl | rfl <;> rfl

/-- Where no quoted text is open behind a delimiter, the last lexeme is complete. -/
theorem step_eq_between {x : Lexer} {c : Char} (h : (x.step c).isOutside = true)
    (hc : isDelimiter c = true) : x.step c = between := by
  cases x with
  | quoted cs =>
    have hquote : c ≠ '\'' := fun heq => absurd (heq ▸ hc) (by decide)
    rw [step_of_join (join?_quoted_of_ne cs hquote)] at h
    cases h
  | _ => exact step_of_isDelimiter rfl hc

/-! ### Blanks -/

theorem isPathChar_of_isBlank {c : Char} (h : isBlank c = true) : isPathChar c = false := by
  simp only [isBlank, Bool.or_eq_true, Bool.and_eq_true, decide_eq_true_eq, beq_iff_eq] at h
  have hval : c.val.toNat = c.toNat := rfl
  have hdot : c ≠ '.' := fun hc => absurd (hc ▸ h) (by decide)
  have hscore : c ≠ '_' := fun hc => absurd (hc ▸ h) (by decide)
  rw [isPathChar, isNameChar]
  delta Char.isAlphanum Char.isAlpha Char.isUpper Char.isLower Char.isDigit
  simp only [Bool.or_eq_false_iff, Bool.and_eq_false_iff, decide_eq_false_iff_not,
    beq_eq_false_iff_ne, ge_iff_le, UInt32.le_iff_toNat_le, hval]
  -- capitals, small letters and digits
  refine ⟨⟨⟨⟨?_, ?_⟩, ?_⟩, hscore⟩, hdot⟩
  · simp
    omega
  · simp
    omega
  · simp
    omega

/-- Outside quotes a blank only ends the lexeme in front of it. -/
theorem join?_of_isBlank {x : Lexer} {c : Char} (hx : x.isOutside = true)
    (hc : isBlank c = true) : x.join? c = none := by
  have hpath := isPathChar_of_isBlank hc
  have hname : isNameChar c = false := by
    rw [isPathChar, Bool.or_eq_false_iff] at hpath
    exact hpath.1
  have hcmp : isComparisonChar c = false := by
    cases h : isComparisonChar c with
    | false => rfl
    | true =>
      simp only [isComparisonChar, Bool.or_eq_true, beq_iff_eq] at h
      rcases h with (rfl | rfl) | rfl <;> exact absurd hc (by decide)
  have hquote : c ≠ '\'' := by
    rintro rfl
    exact absurd hc (by decide)
  cases x with
  | between => rfl
  | word cs => simp [join?_word, hpath]
  | parameter cs => simp [join?_parameter, hname]
  | sign cs => simp [join?_sign, hcmp]
  | quoted cs => cases hx
  | closed cs => exact join?_closed_of_ne cs hquote

theorem begins_of_isBlank {c : Char} (h : isBlank c = true) : begins c = ([], between) := by
  rw [begins, if_pos h]

/-- Blanks behind a text that is not left open. -/
theorem read_append_blanks {x : Lexer} {as bs : List Char} (hx : (x.after as).isOutside = true)
    (hbs : ∀ c ∈ bs, isBlank c = true) : x.read (as ++ bs) = x.read as := by
  have hapart : (x.after as).Apart bs := fun c hc =>
    join?_of_isBlank hx (hbs c (List.mem_of_mem_head? hc))
  have hnone : between.read bs = [] := by
    clear hapart
    induction bs with
    | nil => rfl
    | cons c cs ih =>
      rw [read_cons_of_none (join?_between c), begins_of_isBlank (hbs c List.mem_cons_self)]
      exact ih fun d hd => hbs d (List.mem_cons_of_mem _ hd)
  rw [read_append hapart, hnone, List.append_nil]

/-- Blanks do not close a quoted text. -/
theorem isOutside_of_append_blanks {x : Lexer} {as bs : List Char}
    (h : (x.after (as ++ bs)).isOutside = true) (hbs : ∀ c ∈ bs, isBlank c = true) :
    (x.after as).isOutside = true := by
  rw [after_append] at h
  revert h
  induction bs generalizing as with
  | nil => exact id
  | cons c cs ih =>
    intro h
    -- the first blank goes over to the text in front
    have hcs := @ih (as ++ [c]) (fun d hd => hbs d (List.mem_cons_of_mem _ hd))
    rw [after_append] at hcs
    have hstep := hcs h
    cases hlast : x.after as with
    | quoted l =>
      have hquote : c ≠ '\'' := by
        rintro rfl
        exact absurd (hbs _ List.mem_cons_self) (by decide)
      rw [hlast, after_cons, after_nil, step_of_join (join?_quoted_of_ne l hquote)] at hstep
      exact hstep
    | _ => rfl

theorem after_skipBlanks (cs : List Char) : between.after (skipBlanks cs) = between.after cs := by
  induction cs with
  | nil => rfl
  | cons c cs ih =>
    rw [skipBlanks_cons]
    split
    · next h => rw [ih, after_cons, step_of_none (join?_between c), begins_of_isBlank h]
    · rfl

theorem read_skipBlanks (cs : List Char) : between.read (skipBlanks cs) = between.read cs := by
  induction cs with
  | nil => rfl
  | cons c cs ih =>
    rw [skipBlanks_cons]
    split
    · next h =>
      rw [ih, read_cons_of_none (join?_between c), begins_of_isBlank h]
      rfl
    · rfl

/-- Blanks at the ends of a text that is not left open do not count. -/
theorem read_trim {cs : List Char} (h : (between.after cs).isOutside = true) :
    between.read (trim cs) = between.read cs := by
  obtain ⟨bs, hblanks, hsplit⟩ := exists_trim_append cs
  rw [← read_skipBlanks cs, hsplit]
  rw [← after_skipBlanks, hsplit] at h
  exact (read_append_blanks (isOutside_of_append_blanks h hblanks) hblanks).symm

theorem isOutside_trim {cs : List Char} (h : (between.after cs).isOutside = true) :
    (between.after (trim cs)).isOutside = true := by
  obtain ⟨bs, hblanks, hsplit⟩ := exists_trim_append cs
  rw [← after_skipBlanks, hsplit] at h
  exact isOutside_of_append_blanks h hblanks

/-! ### Texts without quotes and colons -/

/-- The lexeme that is being read is not a placeholder. -/
def isSilent : Lexer → Bool
  | parameter _ => false
  | _ => true

theorem placeholders_flush {x : Lexer} (h : x.isSilent = true) :
    x.flush.filterMap Lexeme.placeholder? = [] := by
  cases x with
  | parameter cs => cases h
  | _ => rfl

/-- A plain character goes on with, or begins, nothing that is quoted and no placeholder. -/
theorem begins_of_isPlainChar {c : Char} (h : isPlainChar c = true) :
    (begins c).1.filterMap Lexeme.placeholder? = [] ∧ (begins c).2.isSilent = true := by
  simp only [isPlainChar, Bool.and_eq_true, bne_iff_ne, ne_eq] at h
  rw [begins, if_neg h.1, if_neg h.2]
  -- a blank, a word, a comparison or a sign of its own
  split
  · exact ⟨rfl, rfl⟩
  · split
    · exact ⟨rfl, rfl⟩
    · split
      · exact ⟨rfl, rfl⟩
      · exact ⟨rfl, rfl⟩

/-- Only a quote opens a quoted text. -/
theorem isOutside_begins {c : Char} (hc : c ≠ '\'') : (begins c).2.isOutside = true := by
  rw [begins, if_neg hc]
  split
  · rfl
  · split
    · rfl
    · split
      · rfl
      · split <;> rfl

theorem isOutside_step {x : Lexer} (hx : x.isOutside = true) {c : Char} (hc : c ≠ '\'') :
    (x.step c).isOutside = true := by
  have hbegins := isOutside_begins hc
  cases x with
  | between => exact hbegins
  | word cs =>
    rw [step, join?_word]
    split
    · rfl
    · exact hbegins
  | parameter cs =>
    rw [step, join?_parameter]
    split
    · rfl
    · exact hbegins
  | sign cs =>
    rw [step, join?_sign]
    split
    · rfl
    · exact hbegins
  | quoted cs => cases hx
  | closed cs =>
    rw [step_of_none (join?_closed_of_ne cs hc)]
    exact hbegins

/-- A text without quotes does not leave a quoted text open. -/
theorem isOutside_after {x : Lexer} (hx : x.isOutside = true) {cs : List Char}
    (hcs : '\'' ∉ cs) : (x.after cs).isOutside = true := by
  induction cs generalizing x with
  | nil => exact hx
  | cons c cs ih =>
    rw [List.mem_cons, not_or] at hcs
    exact ih (isOutside_step hx (Ne.symm hcs.1)) hcs.2

theorem quote_notMem_of_plain {cs : List Char} (hcs : cs.all isPlainChar = true) : '\'' ∉ cs :=
  fun h => absurd (List.all_eq_true.1 hcs _ h) (by decide)

/-- There are no placeholders in a plain text. -/
theorem placeholders_read {x : Lexer} (hx : x.isSilent = true) {cs : List Char}
    (hcs : cs.all isPlainChar = true) : (x.read cs).filterMap Lexeme.placeholder? = [] := by
  induction cs generalizing x with
  | nil => exact placeholders_flush hx
  | cons c cs ih =>
    rw [List.all_cons, Bool.and_eq_true] at hcs
    obtain ⟨hnone, hsilent⟩ := begins_of_isPlainChar hcs.1
    cases hjoin : x.join? c with
    | none =>
      rw [read_cons_of_none hjoin, List.filterMap_append, List.filterMap_append,
        placeholders_flush hx, hnone]
      exact ih hsilent hcs.2
    | some y =>
      rw [read_cons_of_join hjoin]
      refine ih ?_ hcs.2
      -- what goes on is of the kind that it was
      cases x with
      | between => cases hjoin
      | parameter cs => cases hx
      | quoted cs =>
        rw [join?_quoted, Option.some.injEq] at hjoin
        rw [← hjoin]
        split <;> rfl
      | _ =>
        simp only [join?_word, join?_sign, join?_closed, Option.ite_none_right_eq_some,
          Option.some.injEq] at hjoin
        rw [← hjoin.2]
        rfl

/-! ### Words, parameters and quoted texts -/

theorem isPathChar_of_isNameChar {c : Char} (h : isNameChar c = true) : isPathChar c = true := by
  rw [isPathChar, h, Bool.true_or]

/-- A lexeme that takes every character of a text takes all of the text. -/
theorem after_of_joins {kind : List Char → Lexer} {p : Char → Bool}
    (hjoin : ∀ ds c, p c = true → (kind ds).join? c = some (kind (ds ++ [c]))) (ds : List Char)
    {cs : List Char} (h : cs.all p = true) :
    (kind ds).after cs = kind (ds ++ cs) ∧ (kind ds).read cs = (kind (ds ++ cs)).flush := by
  induction cs generalizing ds with
  | nil =>
    rw [List.append_nil]
    exact ⟨rfl, rfl⟩
  | cons c cs ih =>
    rw [List.all_cons, Bool.and_eq_true] at h
    rw [after_cons, step_of_join (hjoin ds c h.1), read_cons_of_join (hjoin ds c h.1)]
    simpa using ih (ds ++ [c]) h.2

theorem after_parameter (ds : List Char) {cs : List Char} (h : cs.all isNameChar = true) :
    (parameter ds).after cs = parameter (ds ++ cs)
      ∧ (parameter ds).read cs = [.parameter (String.ofList (ds ++ cs))] := by
  have hjoin : ∀ ds c, isNameChar c = true →
      (parameter ds).join? c = some (parameter (ds ++ [c])) := fun _ _ hc => if_pos hc
  exact after_of_joins hjoin ds h

theorem after_word (ds : List Char) {cs : List Char} (h : cs.all isPathChar = true) :
    (word ds).after cs = word (ds ++ cs)
      ∧ (word ds).read cs = [.word (String.ofList (ds ++ cs))] := by
  have hjoin : ∀ ds c, isPathChar c = true → (word ds).join? c = some (word (ds ++ [c])) :=
    fun _ _ hc => if_pos hc
  exact after_of_joins hjoin ds h

/-- A colon with a name behind it. -/
theorem read_parameter {cs : List Char} (h : cs.all isNameChar = true) :
    between.after (':' :: cs) = parameter cs
      ∧ between.read (':' :: cs) = [.parameter (String.ofList cs)] :=
  after_parameter [] h

/-- The characters of a quoted text, with the quotes among them doubled. -/
theorem after_quoted (ds cs : List Char) :
    (quoted ds).after (doubleQuotes cs ++ ['\'']) = closed (ds ++ cs)
      ∧ (quoted ds).read (doubleQuotes cs ++ ['\''])
        = [.quoted (String.ofList (ds ++ cs))] := by
  induction cs generalizing ds with
  | nil => simp [flush, step, join?, read]
  | cons c cs ih =>
    rw [doubleQuotes_cons]
    have hrest := ih (ds ++ [c])
    by_cases hc : c = '\''
    · -- two quotes: the first closes, the second takes it back
      subst hc
      simpa [step, join?, read] using hrest
    · rw [if_neg hc]
      simpa [step, join?, read, hc] using hrest

/-- A quoted text is one lexeme. -/
theorem read_quote (s : String) :
    between.after (quote s).toList = closed s.toList
      ∧ between.read (quote s).toList = [.quoted s] := by
  have h := after_quoted [] s.toList
  rw [List.nil_append, String.ofList_toList] at h
  rw [toList_quote]
  exact h

theorem begins_of_isPathChar {c : Char} (h : isPathChar c = true) : begins c = ([], word [c]) := by
  have hblank : ¬ isBlank c = true := fun hc => by
    rw [isPathChar_of_isBlank hc] at h
    cases h
  have hquote : c ≠ '\'' := fun hc => absurd (hc ▸ h) (by decide)
  have hcolon : c ≠ ':' := fun hc => absurd (hc ▸ h) (by decide)
  rw [begins, if_neg hblank, if_neg hquote, if_neg hcolon, if_pos h]

/-- Characters of words are one lexeme. -/
theorem read_word {cs : List Char} (h : cs.all isPathChar = true) (hne : cs ≠ []) :
    between.read cs = [.word (String.ofList cs)] := by
  cases cs with
  | nil => exact absurd rfl hne
  | cons c cs =>
    rw [List.all_cons, Bool.and_eq_true] at h
    rw [read_cons_of_none (join?_between c), begins_of_isPathChar h.1]
    exact (after_word [c] h.2).2

/-! ### Characters of words -/

/-- The characters of the word that is being read. -/
def held : Lexer → List Char
  | word cs => cs
  | _ => []

theorem held_of_join {x y : Lexer} {c : Char} (h : x.join? c = some y) :
    y.held ⊆ x.held ++ [c] := by
  cases x with
  | word cs =>
    rw [join?_word, Option.ite_none_right_eq_some, Option.some.injEq] at h
    rw [← h.2]
    exact List.Subset.refl _
  | between => cases h
  | quoted cs =>
    rw [join?_quoted, Option.some.injEq] at h
    rw [← h]
    split <;> exact List.nil_subset _
  | _ =>
    simp only [join?_parameter, join?_sign, join?_closed, Option.ite_none_right_eq_some,
      Option.some.injEq] at h
    rw [← h.2]
    exact List.nil_subset _

/-- A word begins with its first character, and no word consists of one that stands alone. -/
theorem held_begins (c : Char) :
    (begins c).2.held ⊆ [c] ∧ ∀ w, Lexeme.word w ∉ (begins c).1 := by
  rw [begins]
  split
  · exact ⟨List.nil_subset _, fun _ => List.not_mem_nil⟩
  · split
    · exact ⟨List.nil_subset _, fun _ => List.not_mem_nil⟩
    · split
      · exact ⟨List.nil_subset _, fun _ => List.not_mem_nil⟩
      · split
        · exact ⟨List.Subset.refl _, fun _ => List.not_mem_nil⟩
        · split
          · exact ⟨List.nil_subset _, fun _ => List.not_mem_nil⟩
          · exact ⟨List.nil_subset _, by simp⟩

theorem subset_held_of_flush {x : Lexer} {w : String} (h : Lexeme.word w ∈ x.flush) :
    w.toList ⊆ x.held := by
  cases x with
  | word cs =>
    obtain rfl := Lexeme.word.inj (List.mem_singleton.1 h)
    rw [String.toList_ofList]
    exact List.Subset.refl _
  | _ => simp [flush] at h

/-- The characters of a word that is read stand in the text. -/
theorem subset_of_word {x : Lexer} {cs : List Char} {w : String}
    (h : Lexeme.word w ∈ x.read cs) : w.toList ⊆ x.held ++ cs := by
  induction cs generalizing x with
  | nil =>
    rw [List.append_nil]
    exact subset_held_of_flush h
  | cons c cs ih =>
    rw [List.append_cons]
    have hgoes : ∀ {y : Lexer}, y.held ⊆ x.held ++ [c] → Lexeme.word w ∈ y.read cs →
        w.toList ⊆ x.held ++ [c] ++ cs := fun hy hw =>
      List.Subset.trans (ih hw) (List.append_subset.2
        ⟨List.subset_append_of_subset_left _ hy, List.subset_append_right _ _⟩)
    cases hjoin : x.join? c with
    | some y =>
      rw [read_cons_of_join hjoin] at h
      exact hgoes (held_of_join hjoin) h
    | none =>
      rw [read_cons_of_none hjoin, List.mem_append, List.mem_append] at h
      obtain ⟨hheld, hnone⟩ := held_begins c
      rcases h with (hflush | hbegins) | hread
      · rw [List.append_assoc]
        exact List.subset_append_of_subset_left _ (subset_held_of_flush hflush)
      · exact absurd hbegins (hnone w)
      · exact hgoes (List.subset_append_of_subset_right _ hheld) hread

end Lexer
end PersistenceQuery
