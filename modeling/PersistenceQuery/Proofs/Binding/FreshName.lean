import Mathlib.Data.List.Nodup
import Mathlib.Data.List.Perm.Subperm
import Mathlib.Order.Bounds.Defs
import PersistenceQuery.Binding.Binder
import PersistenceQuery.Text.Digits

/-!
# Generated names

Different ordinals give different names, so among as many ordinals and one more as there are names
taken one gives a name that is free: the bounded search of a binder always ends at the least free
ordinal.

## Main results

* `placeholderName_injective` — a generated name determines its ordinal.
* `Binder.isLeast_freeOrdinal` — the next ordinal is the least one that is free.
-/

namespace PersistenceQuery

theorem toList_toString (n : Nat) : (toString n).toList = Text.decimal n := by
  show (Nat.repr n).toList = Nat.toDigits 10 n
  simp [Nat.repr]

theorem placeholderName_injective : Function.Injective placeholderName := by
  intro m n h
  have h := congrArg String.toList h
  simp only [placeholderName, String.toList_append, List.append_cancel_left_eq,
    toList_toString] at h
  rw [← Text.valueOf_decimal m, h, Text.valueOf_decimal]

/-! ### The bounded search -/

theorem le_firstFree (taken : Nat → Bool) (tries start : Nat) :
    start ≤ firstFree taken tries start := by
  induction tries generalizing start with
  | zero => exact Nat.le_refl _
  | succ tries ih =>
    rw [firstFree]
    split
    · exact Nat.le_of_succ_le (ih (start + 1))
    · exact Nat.le_refl _

/-- All numbers that the search passes are taken. -/
theorem taken_of_lt_firstFree {taken : Nat → Bool} {tries start n : Nat} (hle : start ≤ n)
    (hlt : n < firstFree taken tries start) : taken n = true := by
  induction tries generalizing start with
  | zero => exact absurd hlt (Nat.not_lt.2 hle)
  | succ tries ih =>
    rw [firstFree] at hlt
    split at hlt
    · next htaken =>
      rcases Nat.eq_or_lt_of_le hle with rfl | hgt
      · exact htaken
      · exact ih hgt hlt
    · exact absurd hlt (Nat.not_lt.2 hle)

/-- A search that finds a taken number has passed as many as it may try. -/
theorem firstFree_eq_of_taken {taken : Nat → Bool} {tries start : Nat}
    (h : taken (firstFree taken tries start) = true) :
    firstFree taken tries start = start + tries := by
  induction tries generalizing start with
  | zero => rfl
  | succ tries ih =>
    rw [firstFree] at h ⊢
    split at h
    · next htaken =>
      rw [if_pos htaken, ih h]
      omega
    · next hfree => exact absurd h hfree

/-- There are not enough names to take one ordinal more than there are names. -/
theorem exists_unnamed (names : List String) (start : Nat) :
    ∃ n, start ≤ n ∧ n ≤ start + names.length ∧ placeholderName n ∉ names := by
  by_contra hall
  push Not at hall
  have hsub : (List.range' start (names.length + 1)).map placeholderName ⊆ names := by
    intro s hs
    obtain ⟨n, hn, rfl⟩ := List.mem_map.1 hs
    rw [List.mem_range'_1] at hn
    exact hall n hn.1 (by omega)
  have hnodup : ((List.range' start (names.length + 1)).map placeholderName).Nodup :=
    List.Nodup.map placeholderName_injective List.nodup_range'
  have hlength := (List.subperm_of_subset hnodup hsub).length_le
  rw [List.length_map, List.length_range'] at hlength
  omega

namespace Binder

theorem isTaken_iff {b : Binder} {name : String} :
    b.isTaken name = true ↔ name ∈ b.reserved ++ b.bound.names := by
  simp [isTaken, Bindings.contains]

/-- The next ordinal is the least one from `next` on whose name is neither reserved nor bound. -/
theorem isLeast_freeOrdinal (b : Binder) :
    IsLeast {n | b.next ≤ n ∧ placeholderName n ∉ b.reserved ++ b.bound.names} b.freeOrdinal := by
  have hpassed : ∀ n, b.next ≤ n → n < b.freeOrdinal →
      placeholderName n ∈ b.reserved ++ b.bound.names := fun n hle hlt =>
    isTaken_iff.1 (taken_of_lt_firstFree hle hlt)
  refine ⟨⟨le_firstFree _ _ _, ?_⟩, ?_⟩
  · intro htaken
    -- the search would have passed more ordinals than there are names
    have hend : b.freeOrdinal = b.next + (b.reserved.length + b.bound.size) :=
      firstFree_eq_of_taken (isTaken_iff.2 htaken)
    obtain ⟨n, hle, hbound, hfree⟩ := exists_unnamed (b.reserved ++ b.bound.names) b.next
    have hsize : (b.reserved ++ b.bound.names).length = b.reserved.length + b.bound.size := by
      simp [Bindings.names, Bindings.size]
    rcases Nat.lt_or_ge n b.freeOrdinal with hlt | hge
    · exact hfree (hpassed n hle hlt)
    · have : n = b.freeOrdinal := by omega
      exact hfree (this ▸ htaken)
  · rintro n ⟨hle, hfree⟩
    by_contra hlt
    exact hfree (hpassed n hle (Nat.lt_of_not_le hlt))

/-! ### The answers of a binder -/

/-- A literal that cannot be written leaves the state as it was. -/
theorem register_eq_of_error {b b' : Binder} {v : Value} {fault : Fault}
    (h : b.register v = (.error fault, b')) : b' = b := by
  rw [register] at h
  split at h
  · split at h
    · cases h
    · exact (Prod.mk.inj h).2.symm
  · cases h

/-- A literal is written as it is, or under the name with the next ordinal. -/
theorem register_eq_ok {b b' : Binder} {v : Value} {token : String}
    (h : b.register v = (.ok token, b')) :
    (b.mode = .inline ∧ v.literal = .ok token ∧ b' = b)
      ∨ (b.mode = .placeholder ∧ token = placeholder (placeholderName b.freeOrdinal)
        ∧ b' = { b with
          next := b.freeOrdinal + 1
          bound := b.bound.set (placeholderName b.freeOrdinal) v }) := by
  rw [register] at h
  cases hmode : b.mode with
  | inline =>
    rw [hmode] at h
    cases hliteral : v.literal with
    | error cause => simp [hliteral] at h
    | ok text =>
      simp only [hliteral, Prod.mk.injEq, Except.ok.injEq] at h
      exact .inl ⟨rfl, by rw [h.1], h.2.symm⟩
  | placeholder =>
    simp only [hmode, Prod.mk.injEq, Except.ok.injEq] at h
    exact .inr ⟨rfl, h.1.symm, h.2.symm⟩

end Binder
end PersistenceQuery
