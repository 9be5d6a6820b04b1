import Mathlib.Data.List.TakeWhile
import PersistenceQuery.Text.Blank

/-!
# Trimmed texts

What is left of a text when the blanks at its ends are cut off: a character that is not blank
stays, and so does everything between two of them.

## Main results

* `mem_trim` — a character that is not blank is not cut off.
* `trim_ne_nil_iff` — something is left unless all is blank.
-/

namespace PersistenceQuery
namespace Text

theorem mem_skipBlanks {c : Char} {cs : List Char} (h : c ∈ cs) (hc : isBlank c = false) :
    c ∈ skipBlanks cs := by
  induction cs with
  | nil => exact h
  | cons d cs ih =>
    rw [skipBlanks_cons]
    split
    · next hd =>
      rcases List.mem_cons.1 h with rfl | h
      · rw [hc] at hd
        cases hd
      · exact ih h
    · exact h

/-- Only blanks are cut off behind a text. -/
theorem exists_trim_append (cs : List Char) :
    ∃ bs, (∀ c ∈ bs, isBlank c = true) ∧ skipBlanks cs = trim cs ++ bs := by
  refine ⟨((skipBlanks cs).reverse.takeWhile isBlank).reverse, ?_, ?_⟩
  · exact fun c hc => List.mem_takeWhile_imp (List.mem_reverse.1 hc)
  · rw [trim, ← List.reverse_append, skipBlanks, skipBlanks, List.takeWhile_append_dropWhile,
      List.reverse_reverse]

/-- A character that is not blank is not cut off. -/
theorem mem_trim {c : Char} {cs : List Char} (h : c ∈ cs) (hc : isBlank c = false) :
    c ∈ trim cs := by
  rw [trim, List.mem_reverse]
  exact mem_skipBlanks (List.mem_reverse.2 (mem_skipBlanks h hc)) hc

/-- Something is left of a text unless all of it is blank. -/
theorem trim_ne_nil_iff {cs : List Char} : trim cs ≠ [] ↔ ∃ c ∈ cs, isBlank c = false := by
  constructor
  · intro h
    refine Classical.byContradiction fun hblank => h ?_
    have hskip : skipBlanks cs = [] :=
      List.dropWhile_eq_nil_iff.2 fun c hc =>
        (Bool.not_eq_false _).mp fun hc' => hblank ⟨c, hc, hc'⟩
    rw [trim, hskip]
    rfl
  · rintro ⟨c, hc, hblank⟩
    exact List.ne_nil_of_mem (mem_trim hc hblank)

end Text
end PersistenceQuery
