import PersistenceQuery.Proofs.Text.Quotation

/-!
# Reading one quoted text

A quoted text at the front of a text is read up to the first quote that stands on its own.  Two
quotes side by side stand for a quote, so the closing quote is told from them by the character
behind it: this reading takes back what quoting did, no less and no more, exactly if no quote
follows.

## Main definitions

* `closing? cs` — what stands in front of the closing quote, and what stands behind it.
* `quotation? s` — the text that is quoted at the front of `s`, and the rest of `s`.

## Main results

* `quotation?_eq_some_iff` — what is read has been quoted, and no quote follows it.
* `quotation?_quote_append` — a quoted text is read back from any text that it stands in front of.
* `quote_append_inj` — where a quoted text ends is determined.
* `quotedTexts?_quote_append` — the quoted texts of a text are read one after the other.
-/

namespace PersistenceQuery
namespace Text

variable {cs text rest : List Char}

/-! ### The closing quote -/

/-- Inside of quotes: the characters up to the first quote that stands on its own, with two quotes
taken for one, and the characters behind it; `none` if no quote stands on its own. -/
def closing? : List Char → Option (List Char × List Char)
  | [] => none
  | '\'' :: '\'' :: cs => (closing? cs).map (Prod.map ('\'' :: ·) id)
  | '\'' :: cs => some ([], cs)
  | c :: cs => (closing? cs).map (Prod.map (c :: ·) id)

theorem head?_ne_quote (h : ∀ ds, cs ≠ '\'' :: ds) : cs.head? ≠ some '\'' := by
  intro hhead
  obtain ⟨ds, hds⟩ := List.head?_eq_some_iff.1 hhead
  exact h ds hds

theorem closing?_two_quotes (cs : List Char) :
    closing? ('\'' :: '\'' :: cs) = (closing? cs).map (Prod.map ('\'' :: ·) id) := by
  rw [closing?]

theorem closing?_quote (h : cs.head? ≠ some '\'') : closing? ('\'' :: cs) = some ([], cs) := by
  rw [closing?]
  rintro ds rfl
  exact h rfl

theorem closing?_of_ne {c : Char} (hc : c ≠ '\'') (cs : List Char) :
    closing? (c :: cs) = (closing? cs).map (Prod.map (c :: ·) id) := by
  rw [closing?]
  · exact fun _ h _ => hc h
  · exact hc

/-- Doubled quotes are passed over, whatever there is of them, and the quote behind them closes. -/
theorem closing?_doubleQuotes (text : List Char) (h : rest.head? ≠ some '\'') :
    closing? (doubleQuotes text ++ '\'' :: rest) = some (text, rest) := by
  induction text with
  | nil => exact closing?_quote h
  | cons c text ih =>
    rw [doubleQuotes_cons]
    split
    · next hc =>
      rw [List.cons_append, List.cons_append, closing?_two_quotes, ih, hc]
      rfl
    · next hc =>
      rw [List.cons_append, closing?_of_ne hc, ih]
      rfl

/-- What stands in front of the closing quote has its quotes doubled, and none is behind it. -/
theorem eq_doubleQuotes_of_closing? (h : closing? cs = some (text, rest)) :
    cs = doubleQuotes text ++ '\'' :: rest ∧ rest.head? ≠ some '\'' := by
  induction cs using closing?.induct generalizing text with
  | case1 => cases h
  | case2 cs ih =>
    rw [closing?_two_quotes, Option.map_eq_some_iff] at h
    obtain ⟨⟨front, behind⟩, hclosing, heq⟩ := h
    cases heq
    obtain ⟨hcs, hrest⟩ := ih hclosing
    exact ⟨congrArg ('\'' :: '\'' :: ·) hcs, hrest⟩
  | case3 cs hcs =>
    -- the pattern in front of this one has excluded that another quote follows
    have hhead := head?_ne_quote hcs
    rw [closing?_quote hhead] at h
    cases h
    exact ⟨rfl, hhead⟩
  | case4 c cs _ hc ih =>
    have hne : c ≠ '\'' := fun h => hc h
    rw [closing?_of_ne hne, Option.map_eq_some_iff] at h
    obtain ⟨⟨front, behind⟩, hclosing, heq⟩ := h
    cases heq
    obtain ⟨hcs, hrest⟩ := ih hclosing
    refine ⟨?_, hrest⟩
    show c :: cs = doubleQuotes (c :: front) ++ '\'' :: behind
    rw [doubleQuotes_cons, if_neg hne, hcs]
    rfl

theorem closing?_eq_some_iff :
    closing? cs = some (text, rest)
      ↔ cs = doubleQuotes text ++ '\'' :: rest ∧ rest.head? ≠ some '\'' := by
  refine ⟨eq_doubleQuotes_of_closing?, ?_⟩
  rintro ⟨rfl, h⟩
  exact closing?_doubleQuotes text h

/-! ### Quoted texts -/

/-- The text that is quoted at the front of `s`, and what is left of `s` behind the closing quote;
`none` if there is no quote at the front, or none that closes. -/
def quotation? (s : String) : Option (String × String) :=
  match s.toList with
  | '\'' :: cs => (closing? cs).map (Prod.map String.ofList String.ofList)
  | _ => none

theorem quotation?_eq_some_iff_closing? {t s r : String} :
    quotation? t = some (s, r)
      ↔ ∃ cs, t.toList = '\'' :: cs ∧ closing? cs = some (s.toList, r.toList) := by
  rw [quotation?]
  split
  · next cs ht =>
    rw [Option.map_eq_some_iff]
    constructor
    · rintro ⟨⟨text, rest⟩, hclosing, heq⟩
      cases heq
      refine ⟨cs, ht, ?_⟩
      rw [hclosing, String.toList_ofList, String.toList_ofList]
    · rintro ⟨ds, hds, hclosing⟩
      cases ht.symm.trans hds
      refine ⟨_, hclosing, ?_⟩
      rw [Prod.map_apply, String.ofList_toList, String.ofList_toList]
  · next hne =>
    constructor
    · intro h
      cases h
    · rintro ⟨cs, ht, -⟩
      exact absurd ht (hne cs)

theorem eq_quote_append_iff {t s r : String} :
    t = quote s ++ r ↔ t.toList = '\'' :: (doubleQuotes s.toList ++ '\'' :: r.toList) := by
  rw [← String.toList_inj, String.toList_append, toList_quote, List.cons_append, List.append_assoc,
    List.singleton_append]

/-- What is read at the front of a text is what was quoted there, and there is no quote behind
it. -/
theorem quotation?_eq_some_iff {t s r : String} :
    quotation? t = some (s, r) ↔ t = quote s ++ r ∧ r.toList.head? ≠ some '\'' := by
  rw [quotation?_eq_some_iff_closing?, eq_quote_append_iff]
  constructor
  · rintro ⟨cs, ht, hclosing⟩
    obtain ⟨hcs, hr⟩ := closing?_eq_some_iff.1 hclosing
    exact ⟨hcs ▸ ht, hr⟩
  · rintro ⟨ht, hr⟩
    exact ⟨_, ht, closing?_eq_some_iff.2 ⟨rfl, hr⟩⟩

/-- Where a quoted text ends is determined, if no quote follows it. -/
theorem quote_append_inj {s t q r : String} (hq : q.toList.head? ≠ some '\'')
    (hr : r.toList.head? ≠ some '\'') (h : quote s ++ q = quote t ++ r) : s = t ∧ q = r := by
  have hs : quotation? (quote s ++ q) = some (s, q) := quotation?_eq_some_iff.2 ⟨rfl, hq⟩
  have ht : quotation? (quote s ++ q) = some (t, r) := quotation?_eq_some_iff.2 ⟨h, hr⟩
  rw [hs, Option.some.injEq, Prod.mk.injEq] at ht
  exact ht

/-- A quoted text is read back, and what follows it is left, exactly if that does not begin with a
quote. -/
theorem quotation?_quote_append (s r : String) :
    quotation? (quote s ++ r) = some (s, r) ↔ r.toList.head? ≠ some '\'' := by
  rw [quotation?_eq_some_iff]
  exact and_iff_right rfl

example : quotation? "'''it''''s''' OR 'x'" = some ("'it''s'", " OR 'x'") := by decide +kernel

end Text

open Text

/-! ### One quoted text after the other -/

/-- Inside of quotes the scan reads up to the closing quote, and then looks for the next quoted
text. -/
theorem scanQuotes_some (text cs : List Char) :
    scanQuotes (some text) cs
      = (closing? cs).bind fun p =>
          (scanQuotes none p.2).map (String.ofList (text ++ p.1) :: ·) := by
  induction cs using closing?.induct generalizing text with
  | case1 => rfl
  | case2 cs ih =>
    rw [closing?_two_quotes, scanQuotes, ih]
    simp only [Option.bind_map, List.append_assoc]
    rfl
  | case3 cs hcs =>
    have hhead := head?_ne_quote hcs
    rw [closing?_quote hhead, scanQuotes]
    · simp only [Option.bind_some, List.append_nil]
    · exact hcs
  | case4 c cs hquotes hc ih =>
    rw [closing?_of_ne fun h => hc h, scanQuotes]
    · rw [ih]
      simp only [Option.bind_map, List.append_assoc]
      rfl
    · exact hquotes
    · exact hc

/-- The quoted texts of a text that begins with one. -/
theorem quotedTexts?_quote_append (s : String) {r : String} (h : r.toList.head? ≠ some '\'') :
    quotedTexts? (quote s ++ r) = (quotedTexts? r).map (s :: ·) := by
  rw [quotedTexts?, quotedTexts?, eq_quote_append_iff.1 rfl, scanQuotes, if_pos rfl,
    scanQuotes_some, closing?_doubleQuotes _ h, Option.bind_some, List.nil_append,
    String.ofList_toList]

end PersistenceQuery
