import PersistenceQuery.Proofs.Text.Lexeme

/-!
# Firm texts

A text is firm if it takes a space in front where one was asked for, leaves the question of a space
behind it open, and keeps its ends when it is trimmed.  All tokens with a meaning are firm: names,
words, literals and whatever stands between parentheses.

## Main definitions

* `isFirmHead`, `isFirmLast` — how firm texts begin and end.
* `startsFirm`, `endsFirm`, `isFirm` — a text that begins so, ends so, and both.
* `isSolid` — a text without blanks and delimiters.

## Main results

* `isFirm_of_isSolid` — a solid text is firm unless it is empty.
* `trim_append` — a text is trimmed behind the last character that is not blank only.
* `trim_of_isFirm` — a firm text is not trimmed.
-/

namespace PersistenceQuery
namespace Text

/-- A character that takes a space in front of it. -/
def isFirmHead (c : Char) : Bool := !isBlank c && c != ')' && c != ','

/-- A character behind which a space may be asked for. -/
def isFirmLast (c : Char) : Bool := !isBlank c && c != '('

/-- The text begins with a character that takes a space in front of it. -/
def startsFirm (s : String) : Bool := s.toList.head?.any isFirmHead

/-- The text ends in a character behind which a space may be asked for. -/
def endsFirm (s : String) : Bool := s.toList.getLast?.any isFirmLast

/-- The text begins and ends like a token that stands apart from others. -/
def isFirm (s : String) : Bool := startsFirm s && endsFirm s

theorem isFirm_iff {s : String} : isFirm s = true ↔ startsFirm s = true ∧ endsFirm s = true :=
  Bool.and_eq_true_iff

theorem startsFirm_append {s : String} (h : startsFirm s = true) (t : String) :
    startsFirm (s ++ t) = true := by
  rw [startsFirm] at h ⊢
  rw [String.toList_append, List.head?_append]
  cases hs : s.toList.head? with
  | none => simp [hs] at h
  | some c => simpa [hs] using h

theorem endsFirm_append (s : String) {t : String} (h : endsFirm t = true) :
    endsFirm (s ++ t) = true := by
  rw [endsFirm] at h ⊢
  rw [String.toList_append, List.getLast?_append]
  cases ht : t.toList.getLast? with
  | none => simp [ht] at h
  | some c => simpa [ht] using h

/-- Between two firm texts there may be anything. -/
theorem isFirm_append {s t : String} (hs : isFirm s = true) (ht : isFirm t = true)
    (between : String) : isFirm (s ++ between ++ t) = true :=
  isFirm_iff.2 ⟨startsFirm_append (startsFirm_append (isFirm_iff.1 hs).1 _) _,
    endsFirm_append _ (isFirm_iff.1 ht).2⟩

theorem isFirm_parenthesized (s : String) : isFirm ("(" ++ s ++ ")") = true :=
  isFirm_iff.2 ⟨startsFirm_append (startsFirm_append (by decide) _) _,
    endsFirm_append _ (by decide)⟩

theorem isFirm_quote (s : String) : isFirm (quote s) = true := by
  rw [isFirm_iff, startsFirm, endsFirm, toList_quote]
  refine ⟨rfl, ?_⟩
  rw [← List.cons_append, List.getLast?_concat]
  rfl

/-! ### Solid texts -/

/-- The character is neither a blank nor a delimiter. -/
def isSolidChar (c : Char) : Bool := !isBlank c && !isDelimiter c

/-- A text without blanks and delimiters. -/
def isSolid (s : String) : Bool := s.toList.all isSolidChar

/-- A solid text is firm unless it is empty. -/
theorem isFirm_of_isSolid {s : String} (h : isSolid s = true) (hne : s ≠ "") :
    isFirm s = true := by
  have hsolid : ∀ c ∈ s.toList, isFirmHead c = true ∧ isFirmLast c = true := by
    intro c hc
    have h := List.all_eq_true.1 h c hc
    simp only [isSolidChar, isDelimiter, Bool.and_eq_true, Bool.not_eq_true',
      Bool.or_eq_false_iff, beq_eq_false_iff_ne] at h
    simp [isFirmHead, isFirmLast, h]
  have hnil : s.toList ≠ [] := fun h => hne (String.toList_eq_nil_iff.1 h)
  rw [isFirm_iff, startsFirm, endsFirm, List.head?_eq_some_head hnil,
    List.getLast?_eq_some_getLast hnil]
  exact ⟨(hsolid _ (List.head_mem hnil)).1, (hsolid _ (List.getLast_mem hnil)).2⟩

theorem isSolidChar_of_isPathChar {c : Char} (h : isPathChar c = true) : isSolidChar c = true := by
  have hblank : isBlank c = false := by
    by_contra hb
    rw [Bool.not_eq_false] at hb
    rw [Lexer.isPathChar_of_isBlank hb] at h
    cases h
  have hdelimiter : isDelimiter c = false := by
    by_contra hd
    simp only [isDelimiter, Bool.not_eq_false, Bool.or_eq_true, beq_iff_eq] at hd
    rcases hd with ((rfl | rfl) | rfl) | rfl <;> exact absurd h (by decide)
  rw [isSolidChar, hblank, hdelimiter]
  rfl

/-! ### Trimming -/

/-- The text without the blanks behind it. -/
def trimEnd (cs : List Char) : List Char := (skipBlanks cs.reverse).reverse

/-- Behind a character that is not blank, only what follows is trimmed. -/
theorem trimEnd_append {as : List Char} (h : ∀ c ∈ as.getLast?, isBlank c = false)
    (bs : List Char) : trimEnd (as ++ bs) = as ++ trimEnd bs := by
  have hskip : ∀ {cs ds : List Char}, (∀ c ∈ ds.head?, isBlank c = false) →
      skipBlanks (cs ++ ds) = skipBlanks cs ++ ds := by
    intro cs ds hds
    induction cs with
    | nil =>
      cases ds with
      | nil => rfl
      | cons d ds =>
        have hd := hds d rfl
        rw [List.nil_append, skipBlanks_cons, hd]
        rfl
    | cons c cs ih =>
      rw [List.cons_append, skipBlanks_cons, skipBlanks_cons, ih]
      split <;> rfl
  rw [trimEnd, trimEnd, List.reverse_append, hskip, List.reverse_append, List.reverse_reverse]
  rw [List.head?_reverse]
  exact h

/-- A text that begins with a character that is not blank is trimmed behind only. -/
theorem trim_eq_trimEnd {s : String} (h : startsFirm s = true) :
    trim s.toList = trimEnd s.toList := by
  rw [trim, trimEnd]
  rw [startsFirm] at h
  cases hs : s.toList with
  | nil => rfl
  | cons c cs =>
    rw [hs, List.head?_cons, Option.any_some, isFirmHead, Bool.and_assoc, Bool.and_eq_true,
      Bool.not_eq_true'] at h
    rw [skipBlanks_cons c cs, h.1]
    rfl

/-- A text is trimmed behind the last character that is not blank only. -/
theorem trim_append {s : String} (hlast : ∀ c ∈ s.toList.getLast?, isBlank c = false)
    {t : String} (hstarts : startsFirm (s ++ t) = true) :
    String.ofList (trim (s ++ t).toList) = s ++ String.ofList (trimEnd t.toList) := by
  rw [trim_eq_trimEnd hstarts, String.toList_append, trimEnd_append hlast, String.ofList_append,
    String.ofList_toList]

/-- Something is left of a text that begins with a character that is not blank. -/
theorem trim_ne_nil {s : String} (h : startsFirm s = true) : trim s.toList ≠ [] := by
  rw [startsFirm] at h
  cases hs : s.toList with
  | nil =>
    rw [hs] at h
    cases h
  | cons c cs =>
    rw [hs, List.head?_cons, Option.any_some, isFirmHead, Bool.and_assoc, Bool.and_eq_true,
      Bool.not_eq_true'] at h
    exact List.ne_nil_of_mem (mem_trim List.mem_cons_self h.1)

/-- A firm text is not trimmed. -/
theorem trim_of_isFirm {s : String} (h : isFirm s = true) : trim s.toList = s.toList := by
  obtain ⟨hstarts, hends⟩ := isFirm_iff.1 h
  have hlast : ∀ c ∈ s.toList.getLast?, isBlank c = false := by
    intro c hc
    rw [endsFirm, Option.mem_def.1 hc, Option.any_some, isFirmLast, Bool.and_eq_true,
      Bool.not_eq_true'] at hends
    exact hends.1
  have htrim := trimEnd_append hlast []
  rw [List.append_nil] at htrim
  rw [trim_eq_trimEnd hstarts, htrim]
  exact List.append_nil _

end Text
end PersistenceQuery
