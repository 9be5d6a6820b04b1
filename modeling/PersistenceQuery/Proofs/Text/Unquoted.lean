import Mathlib.Data.List.Infix
import PersistenceQuery.Proofs.Text.Firm

/-!
# Texts outside of quotes

What is left of a text when everything between quotes is skipped.  Every quote opens or closes: two
of them inside a quoted text close it and open it again, which skips the same characters as taking
them for one.  Texts that close their quotes can be put behind one another.

## Main definitions

* `isQuoting` — whether a quote is open behind some characters.
* `outside`, `unquoted` — the characters outside of quotes, and the quotes themselves.
* `Clear p` — the text closes its quotes, and outside of them `p` holds of all characters.

## Main results

* `unquoted_append` — the texts of two texts, of which the first closes its quotes.
* `exists_unquoted_trim` — trimming takes away blanks only, inside and outside of quotes.
-/

namespace PersistenceQuery
namespace Text

/-- Whether a quote is open behind characters, if one was or was not in front of them. -/
def isQuoting (inside : Bool) : List Char → Bool
  | [] => inside
  | c :: cs => if c = '\'' then isQuoting (!inside) cs else isQuoting inside cs

/-- The characters outside of quotes with the quotes themselves, if a quote was or was not open in
front of them. -/
def outside (inside : Bool) : List Char → List Char
  | [] => []
  | c :: cs =>
    if c = '\'' then c :: outside (!inside) cs
    else if inside then outside inside cs
    else c :: outside inside cs

/-- The text without what is quoted in it. -/
def unquoted (cs : List Char) : List Char := outside false cs

theorem isQuoting_append (inside : Bool) (as bs : List Char) :
    isQuoting inside (as ++ bs) = isQuoting (isQuoting inside as) bs := by
  induction as generalizing inside with
  | nil => rfl
  | cons a as ih =>
    rw [List.cons_append, isQuoting, isQuoting]
    split <;> exact ih _

theorem outside_append (inside : Bool) (as bs : List Char) :
    outside inside (as ++ bs) = outside inside as ++ outside (isQuoting inside as) bs := by
  induction as generalizing inside with
  | nil => rfl
  | cons a as ih =>
    rw [List.cons_append, outside, outside, isQuoting]
    split
    · rw [ih, List.cons_append]
    · split
      · exact ih _
      · rw [ih, List.cons_append]

/-- Behind a text that closes its quotes nothing is skipped. -/
theorem unquoted_append {as : List Char} (h : isQuoting false as = false) (bs : List Char) :
    unquoted (as ++ bs) = unquoted as ++ unquoted bs := by
  rw [unquoted, outside_append, h]
  rfl

/-- A prefix of a text has a prefix of the text outside of quotes. -/
theorem prefix_unquoted {as cs : List Char} (h : as <+: cs) : unquoted as <+: unquoted cs := by
  obtain ⟨bs, rfl⟩ := h
  rw [unquoted, unquoted, outside_append]
  exact List.prefix_append _ _

theorem isQuoting_of_notMem {cs : List Char} (h : '\'' ∉ cs) (inside : Bool) :
    isQuoting inside cs = inside := by
  induction cs with
  | nil => rfl
  | cons c cs ih =>
    rw [List.mem_cons, not_or] at h
    rw [isQuoting, if_neg (Ne.symm h.1)]
    exact ih h.2

/-- Where there are no quotes, nothing is skipped. -/
theorem unquoted_of_notMem {cs : List Char} (h : '\'' ∉ cs) : unquoted cs = cs := by
  induction cs with
  | nil => rfl
  | cons c cs ih =>
    rw [List.mem_cons, not_or] at h
    rw [unquoted, outside, if_neg (Ne.symm h.1)]
    exact congrArg (c :: ·) (ih h.2)

/-- Between the two quotes of a quoted text, quotes come in pairs. -/
theorem outside_doubleQuotes (cs : List Char) :
    isQuoting true (doubleQuotes cs) = true
      ∧ ∀ c ∈ outside true (doubleQuotes cs), c = '\'' := by
  induction cs with
  | nil => exact ⟨rfl, fun c hc => absurd hc List.not_mem_nil⟩
  | cons c cs ih =>
    rw [doubleQuotes_cons]
    split
    · refine ⟨ih.1, ?_⟩
      exact List.forall_mem_cons.2 ⟨rfl, List.forall_mem_cons.2 ⟨rfl, ih.2⟩⟩
    · next h =>
      rw [isQuoting, outside, if_neg h, if_neg h]
      exact ih

/-! ### Texts that close their quotes -/

/-- The text closes its quotes, and outside of them there are only characters that satisfy `p`. -/
structure Clear (p : Char → Bool) (cs : List Char) : Prop where
  closed : isQuoting false cs = false
  all : (unquoted cs).all p = true

namespace Clear

variable {p : Char → Bool} {as bs cs : List Char}

theorem of_notMem (h : '\'' ∉ cs) (hp : cs.all p = true) : Clear p cs :=
  ⟨isQuoting_of_notMem h false, by rw [unquoted_of_notMem h, hp]⟩

theorem append (has : Clear p as) (hbs : Clear p bs) : Clear p (as ++ bs) :=
  ⟨by rw [isQuoting_append, has.closed, hbs.closed],
    by rw [unquoted_append has.closed, List.all_append, has.all, hbs.all]; rfl⟩

/-- A quoted text may hold any characters. -/
theorem quote (hp : p '\'' = true) (s : String) : Clear p (quote s).toList := by
  obtain ⟨hquoting, hquotes⟩ := outside_doubleQuotes s.toList
  rw [toList_quote]
  refine ⟨?_, ?_⟩
  · rw [isQuoting, if_pos rfl, isQuoting_append]
    show isQuoting (isQuoting true (doubleQuotes s.toList)) ['\''] = false
    rw [hquoting]
    rfl
  · rw [unquoted, outside, if_pos rfl, outside_append, List.all_cons, List.all_append, hp]
    show (true && ((outside true (doubleQuotes s.toList)).all p
      && (outside (isQuoting true (doubleQuotes s.toList)) ['\'']).all p)) = true
    rw [hquoting, List.all_eq_true.2 fun c hc => (hquotes c hc) ▸ hp]
    show (true && (true && (p '\'' && true))) = true
    rw [hp]
    rfl

end Clear

/-! ### Trimmed texts -/

theorem quote_notMem_of_isBlank {bs : List Char} (h : ∀ c ∈ bs, isBlank c = true) : '\'' ∉ bs :=
  fun hmem => absurd (h _ hmem) (by decide)

/-- A text is what is left of it when it is trimmed, between blanks. -/
theorem exists_append_trim (cs : List Char) :
    ∃ as bs, (∀ c ∈ as, isBlank c = true) ∧ (∀ c ∈ bs, isBlank c = true)
      ∧ cs = as ++ (trim cs ++ bs) := by
  obtain ⟨bs, hbs, htrim⟩ := exists_trim_append cs
  refine ⟨cs.takeWhile isBlank, bs, fun c hc => List.mem_takeWhile_imp hc, hbs, ?_⟩
  rw [← htrim, skipBlanks, List.takeWhile_append_dropWhile]

/-- Trimming a text that closes its quotes takes away blanks outside of quotes. -/
theorem exists_unquoted_trim {cs : List Char} (h : isQuoting false cs = false) :
    isQuoting false (trim cs) = false
      ∧ ∃ as bs, (∀ c ∈ as, isBlank c = true) ∧ (∀ c ∈ bs, isBlank c = true)
        ∧ unquoted cs = as ++ (unquoted (trim cs) ++ bs) := by
  obtain ⟨as, bs, has, hbs, heq⟩ := exists_append_trim cs
  have hasq := quote_notMem_of_isBlank has
  have hbsq := quote_notMem_of_isBlank hbs
  have hclosed : isQuoting false (trim cs) = false := by
    rw [heq, isQuoting_append, isQuoting_of_notMem hasq, isQuoting_append,
      isQuoting_of_notMem hbsq] at h
    exact h
  refine ⟨hclosed, as, bs, has, hbs, ?_⟩
  calc unquoted cs = unquoted (as ++ (trim cs ++ bs)) := congrArg unquoted heq
    _ = as ++ (unquoted (trim cs) ++ bs) := by
      rw [unquoted_append (isQuoting_of_notMem hasq false), unquoted_append hclosed,
        unquoted_of_notMem hasq, unquoted_of_notMem hbsq]

end Text
end PersistenceQuery
