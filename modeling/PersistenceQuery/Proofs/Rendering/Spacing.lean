import PersistenceQuery.Proofs.Text.Firm
import PersistenceQuery.Rendering.Draft

/-!
# Spaces in a draft

What a draft adds for a token depends on two things only: whether a space is pending, and whether
the token takes it.  A firm token does, and a space can be asked for behind it.

## Main definitions

* `Draft.gap` — the space that is pending.
* `Draft.added` — what is added for a token.

## Main results

* `Draft.text_write`, `Draft.text_write_of_startsFirm` — the text behind a token.
* `Draft.refusesSpace_of_endsFirm` — behind a firm token a space can be asked for.
-/

namespace PersistenceQuery

open Text

namespace Draft

/-- The space that is pending. -/
def gap (d : Draft) : String := if d.spacePending then " " else ""

/-- What is added for a token: a pending space if the token takes it, and the token. -/
def added (d : Draft) (token : String) : String :=
  if standsClose token then token else d.gap ++ token

theorem text_write (d : Draft) (token : String) :
    (d.write token).text = d.text ++ d.added token := by
  rw [write, added, gap]
  cases d.spacePending <;> cases standsClose token <;> simp [String.append_assoc]

theorem standsClose_of_startsFirm {token : String} (h : startsFirm token = true) :
    standsClose token = false := by
  rw [startsFirm] at h
  rw [standsClose, String.front?_eq]
  cases hc : token.toList.head? with
  | none => simp [hc] at h
  | some c =>
    simp only [hc, Option.any_some, isFirmHead, Bool.and_eq_true, Bool.not_eq_true', bne_iff_ne,
      ne_eq] at h
    have hspace : c ≠ ' ' := by
      rintro rfl
      exact absurd h.1.1 (by decide)
    simp [h, hspace]

/-- A token that takes a space gets the one that is pending. -/
theorem text_write_of_startsFirm (d : Draft) {token : String} (h : startsFirm token = true) :
    (d.write token).text = d.text ++ d.gap ++ token := by
  rw [text_write, added, standsClose_of_startsFirm h, String.append_assoc]
  rfl

/-- A token that takes no space is added as it is. -/
theorem text_write_of_standsClose (d : Draft) {token : String} (h : standsClose token = true) :
    (d.write token).text = d.text ++ token := by
  rw [text_write, added, if_pos h]

/-- Behind a firm token a space can be asked for. -/
theorem refusesSpace_of_endsFirm {s : String} (h : endsFirm s = true) : refusesSpace s = false := by
  rw [endsFirm] at h
  rw [refusesSpace, String.back?_eq]
  cases hc : s.toList.getLast? with
  | none => simp [hc] at h
  | some c =>
    simp only [hc, Option.any_some, isFirmLast, Bool.and_eq_true, Bool.not_eq_true', bne_iff_ne,
      ne_eq] at h
    have hspace : c ≠ ' ' := by
      rintro rfl
      exact absurd h.1 (by decide)
    simp [h, hspace]

/-- Whether a space is refused depends on the last token, or on what is in front of it. -/
theorem refusesSpace_append {s t : String} (h : refusesSpace s = refusesSpace t) (token : String) :
    refusesSpace (s ++ token) = refusesSpace (t ++ token) := by
  rw [refusesSpace, refusesSpace, String.back?_eq, String.back?_eq] at h ⊢
  rw [String.toList_append, String.toList_append, List.getLast?_append, List.getLast?_append]
  cases token.toList.getLast? with
  | none => exact h
  | some c => rfl

end Draft
end PersistenceQuery
