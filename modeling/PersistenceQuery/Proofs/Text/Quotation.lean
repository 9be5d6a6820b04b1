import PersistenceQuery.Proofs.Text.Lexeme

/-!
# Quoted texts in a text

The rule by which a database finds the quoted texts: a quote opens one, two quotes inside it stand
for a quote, and a quote on its own closes it.  The scan looks at nothing but quotes; it finds what
the lexemes of the text have between quotes.

## Main definitions

* `scanQuotes`, `quotedTexts?` — the quoted texts of a text, if the last one is closed.

## Main results

* `quotedTexts?_eq` — they are the quoted lexemes.
-/

namespace PersistenceQuery

open Text

/-- The quoted texts of characters, behind what there is so far of one that is open; `none` if one
is left open. -/
def scanQuotes : Option (List Char) → List Char → Option (List String)
  | none, [] => some []
  | none, c :: cs => if c = '\'' then scanQuotes (some []) cs else scanQuotes none cs
  | some _, [] => none
  | some text, '\'' :: '\'' :: cs => scanQuotes (some (text ++ ['\''])) cs
  | some text, '\'' :: cs => (scanQuotes none cs).map (String.ofList text :: ·)
  | some text, c :: cs => scanQuotes (some (text ++ [c])) cs

/-- The quoted texts of a text with the quotes inside them taken back to one; `none` if the last is
left open. -/
def quotedTexts? (s : String) : Option (List String) := scanQuotes none s.toList

/-- The text between the quotes. -/
def Lexeme.quoted? : Lexeme → Option String
  | quoted text => some text
  | _ => none

namespace Lexer

/-- Nothing quoted is being read. -/
def isUnquoted : Lexer → Bool
  | quoted _ | closed _ => false
  | _ => true

/-- The quoted texts among the lexemes, if none is left open. -/
def quotedTexts? (x : Lexer) (cs : List Char) : Option (List String) :=
  if (x.after cs).isOutside then some ((x.read cs).filterMap Lexeme.quoted?) else none

theorem isOutside_of_isUnquoted {x : Lexer} (h : x.isUnquoted = true) : x.isOutside = true := by
  cases x with
  | quoted cs => cases h
  | _ => rfl

theorem quoted_flush {x : Lexer} (h : x.isUnquoted = true) :
    x.flush.filterMap Lexeme.quoted? = [] := by
  cases x with
  | quoted cs => cases h
  | closed cs => cases h
  | _ => rfl

theorem quoted_begins (c : Char) : (begins c).1.filterMap Lexeme.quoted? = [] := by
  rw [begins]
  split <;> [rfl; split] <;> [rfl; split] <;> [rfl; split] <;> [rfl; split] <;> rfl

/-- A character that is no quote does not begin a quoted text. -/
theorem isUnquoted_begins {c : Char} (hc : c ≠ '\'') : (begins c).2.isUnquoted = true := by
  rw [begins, if_neg hc]
  split <;> [rfl; split] <;> [rfl; split] <;> [rfl; split] <;> rfl

theorem isUnquoted_join? {x y : Lexer} {c : Char} (hx : x.isUnquoted = true)
    (h : x.join? c = some y) : y.isUnquoted = true := by
  cases x with
  | between => cases h
  | quoted cs => cases hx
  | closed cs => cases hx
  | _ =>
    simp only [join?_word, join?_parameter, join?_sign, Option.ite_none_right_eq_some,
      Option.some.injEq] at h
    rw [← h.2]
    rfl

/-- A quote ends what is being read outside of quotes. -/
theorem join?_quote {x : Lexer} (hx : x.isUnquoted = true) : x.join? '\'' = none := by
  cases x with
  | quoted cs => cases hx
  | closed cs => cases hx
  | _ => rfl

/-- Outside of quotes a character other than a quote adds nothing. -/
theorem exists_unquoted_step {x : Lexer} (hx : x.isUnquoted = true) {c : Char} (hc : c ≠ '\'') :
    ∃ y : Lexer, y.isUnquoted = true ∧ ∀ cs, x.quotedTexts? (c :: cs) = y.quotedTexts? cs := by
  cases hjoin : x.join? c with
  | some y =>
    refine ⟨y, isUnquoted_join? hx hjoin, fun cs => ?_⟩
    rw [quotedTexts?, after_cons, step_of_join hjoin, read_cons_of_join hjoin]
    rfl
  | none =>
    refine ⟨(begins c).2, isUnquoted_begins hc, fun cs => ?_⟩
    rw [quotedTexts?, after_cons, step_of_none hjoin, read_cons_of_none hjoin]
    simp only [List.filterMap_append, quoted_flush hx, quoted_begins, List.nil_append]
    rfl

theorem quotedTexts?_quote {x : Lexer} (hx : x.isUnquoted = true) (cs : List Char) :
    x.quotedTexts? ('\'' :: cs) = (quoted []).quotedTexts? cs := by
  rw [quotedTexts?, after_cons, step_of_none (join?_quote hx), read_cons_of_none (join?_quote hx),
    List.append_assoc, List.filterMap_append, quoted_flush hx]
  rfl

/-- Behind a closing quote the text is complete. -/
theorem quotedTexts?_closed (text : List Char) {cs : List Char}
    (h : ∀ rest, cs ≠ '\'' :: rest) :
    (closed text).quotedTexts? cs = (between.quotedTexts? cs).map (String.ofList text :: ·) := by
  have hapart : (closed text).Apart cs := by
    intro c hc
    obtain ⟨rest, rfl⟩ := List.head?_eq_some_iff.1 hc
    rw [join?, if_neg fun heq => h rest (by rw [heq])]
  rw [quotedTexts?, quotedTexts?, read_of_apart hapart]
  cases cs with
  | nil => rfl
  | cons c cs =>
    rw [after_of_apart hapart (List.cons_ne_nil c cs)]
    split <;> rfl

/-- Outside of quotes a text without quotes adds nothing. -/
theorem quotedTexts?_of_notMem {x : Lexer} (hx : x.isUnquoted = true) {cs : List Char}
    (hcs : '\'' ∉ cs) : x.quotedTexts? cs = some [] := by
  induction cs generalizing x with
  | nil =>
    rw [quotedTexts?, after_nil, isOutside_of_isUnquoted hx, if_pos rfl, read_nil,
      quoted_flush hx]
  | cons c cs ih =>
    rw [List.mem_cons, not_or] at hcs
    obtain ⟨y, hy, hstep⟩ := exists_unquoted_step hx (Ne.symm hcs.1)
    rw [hstep]
    exact ih hy hcs.2

/-- Where nothing is left open, the quoted lexemes are the quoted texts. -/
theorem quotedTexts?_eq_some {x : Lexer} {cs : List Char} {texts : List String} :
    x.quotedTexts? cs = some texts
      ↔ (x.after cs).isOutside = true ∧ (x.read cs).filterMap Lexeme.quoted? = texts := by
  rw [quotedTexts?, Option.ite_none_right_eq_some, Option.some.injEq]

/-- The quoted texts of two texts that are read apart. -/
theorem quotedTexts?_append {x : Lexer} {as bs : List Char} {ss ts : List String}
    (has : x.quotedTexts? as = some ss) (hbs : between.quotedTexts? bs = some ts)
    (hapart : (x.after as).Apart bs) : x.quotedTexts? (as ++ bs) = some (ss ++ ts) := by
  rw [quotedTexts?_eq_some] at has hbs ⊢
  refine ⟨?_, ?_⟩
  · rw [after_append]
    by_cases hne : bs = []
    · rw [hne]
      exact has.1
    · rw [after_of_apart hapart hne]
      exact hbs.1
  · rw [read_append hapart, List.filterMap_append, has.2, hbs.2]

theorem quotedTexts?_quoted (s : String) : between.quotedTexts? (quote s).toList = some [s] := by
  obtain ⟨hafter, hread⟩ := read_quote s
  rw [quotedTexts?_eq_some, hafter, hread]
  exact ⟨rfl, rfl⟩

/-- Once a quote has come there is a quoted text. -/
theorem exists_quoted_of_open (cs : List Char) :
    (∀ ds, ∃ s, Lexeme.quoted s ∈ (quoted ds).read cs)
      ∧ ∀ ds, ∃ s, Lexeme.quoted s ∈ (closed ds).read cs := by
  induction cs with
  | nil => exact ⟨fun ds => ⟨_, List.mem_cons_self⟩, fun ds => ⟨_, List.mem_cons_self⟩⟩
  | cons c cs ih =>
    refine ⟨fun ds => ?_, fun ds => ?_⟩
    · rw [read_cons_of_join (join?_quoted ds)]
      split
      · exact ih.2 ds
      · exact ih.1 (ds ++ [c])
    · by_cases hc : c = '\''
      · rw [read_cons_of_join (by rw [join?_closed, if_pos hc])]
        exact ih.1 (ds ++ [c])
      · rw [read_cons_of_none (join?_closed_of_ne ds hc), List.append_assoc]
        exact ⟨_, List.mem_cons_self⟩

/-- A quote in a text begins a quoted text. -/
theorem exists_quoted_of_mem {x : Lexer} (hx : x.isUnquoted = true) {cs : List Char}
    (h : '\'' ∈ cs) : ∃ s, Lexeme.quoted s ∈ x.read cs := by
  induction cs generalizing x with
  | nil => cases h
  | cons c cs ih =>
    by_cases hc : c = '\''
    · obtain ⟨s, hs⟩ := (exists_quoted_of_open cs).1 []
      rw [hc, read_cons_of_none (join?_quote hx)]
      exact ⟨s, List.mem_append_right _ hs⟩
    · have hcs := (List.mem_cons.1 h).resolve_left (Ne.symm hc)
      cases hjoin : x.join? c with
      | some y =>
        rw [read_cons_of_join hjoin]
        exact ih (isUnquoted_join? hx hjoin) hcs
      | none =>
        obtain ⟨s, hs⟩ := ih (isUnquoted_begins hc) hcs
        rw [read_cons_of_none hjoin]
        exact ⟨s, List.mem_append_right _ hs⟩

end Lexer

/-- The scan goes along with the lexer, inside and outside of quotes. -/
theorem scanQuotes_eq (o : Option (List Char)) (cs : List Char) :
    (∀ x : Lexer, o = none → x.isUnquoted = true → scanQuotes none cs = x.quotedTexts? cs)
      ∧ ∀ text, o = some text →
        scanQuotes (some text) cs = (Lexer.quoted text).quotedTexts? cs := by
  induction o, cs using scanQuotes.induct with
  | case1 =>
    refine ⟨fun x _ hx => ?_, nofun⟩
    rw [Lexer.quotedTexts?, Lexer.after_nil, Lexer.isOutside_of_isUnquoted hx, if_pos rfl,
      Lexer.read_nil, Lexer.quoted_flush hx, scanQuotes]
  | case2 cs ih =>
    -- a quote opens a text
    refine ⟨fun x _ hx => ?_, nofun⟩
    rw [Lexer.quotedTexts?_quote hx, scanQuotes, if_pos rfl]
    exact ih.2 [] rfl
  | case3 c cs hc ih =>
    refine ⟨fun x _ hx => ?_, nofun⟩
    obtain ⟨y, hy, hstep⟩ := Lexer.exists_unquoted_step hx hc
    rw [hstep, scanQuotes, if_neg hc]
    exact ih.1 y rfl hy
  | case4 text =>
    refine ⟨nofun, fun ds h => ?_⟩
    cases h
    rfl
  | case5 text cs ih =>
    -- two quotes inside a text stand for one
    refine ⟨nofun, fun ds h => ?_⟩
    cases h
    rw [scanQuotes]
    exact ih.2 _ rfl
  | case6 text cs hcs ih =>
    -- a quote that no other follows closes the text
    refine ⟨nofun, fun ds h => ?_⟩
    cases h
    have hclosed := Lexer.quotedTexts?_closed text fun rest h => hcs rest h
    rw [← ih.1 .between rfl rfl] at hclosed
    rw [scanQuotes]
    · exact hclosed.symm
    · exact hcs
  | case7 text c cs h₁ h₂ ih =>
    refine ⟨nofun, fun ds h => ?_⟩
    cases h
    have hc : c ≠ '\'' := fun h => h₂ h
    rw [scanQuotes]
    · rw [ih.2 _ rfl, Lexer.quotedTexts?, Lexer.quotedTexts?]
      have hjoin := Lexer.join?_quoted_of_ne text hc
      rw [Lexer.after_cons, Lexer.step_of_join hjoin, Lexer.read_cons_of_join hjoin]
    · exact h₁
    · exact h₂

/-- The quoted texts that a scan finds are the quoted lexemes. -/
theorem quotedTexts?_eq (s : String) :
    quotedTexts? s = Lexer.between.quotedTexts? s.toList :=
  (scanQuotes_eq none s.toList).1 .between rfl rfl

end PersistenceQuery
