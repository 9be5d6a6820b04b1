import Mathlib.Data.List.Dedup
import PersistenceQuery.Proofs.Binding.FreshName

/-!
# The search for a name

A generated name is found by trying one ordinal after the other until a name is free.  Nothing in a
round tells that the search will end; it does because different ordinals have different names and
only so many names are taken.

## Main definitions

* `Binder.attempt` — one round: the name that is tried, if it is free, and the state behind it.
* `Binder.Finds` — rounds that end with a name.

## Main results

* `Binder.Finds.of_taken` — a search passes the ordinals whose names are taken.
* `Binder.finds_iff` — there is one way for a search to end.
* `Binder.freeOrdinal_le` — a search passes at most as many ordinals as there are names taken.
* `Binder.search_ends` — how long a search takes, and what it finds.
-/

namespace PersistenceQuery
namespace Binder

variable {b b' b'' : Binder} {name name' : String} {rounds rounds' : Nat}

/-- One round of a search: the next ordinal is used up, and its name is found if it is free. -/
def attempt (b : Binder) : Option String × Binder :=
  (if b.isTaken (placeholderName b.next) then none else some (placeholderName b.next),
    { b with next := b.next + 1 })

/-- `b.Finds rounds name b'`: from the state `b` a search ends after this many rounds, finds the
name and leaves the state `b'`. -/
inductive Finds : Binder → Nat → String → Binder → Prop
  | found {b b' : Binder} {name : String} (h : b.attempt = (some name, b')) : Finds b 1 name b'
  | again {b b' b'' : Binder} {name : String} {rounds : Nat} (h : b.attempt = (none, b'))
    (rest : Finds b' rounds name b'') : Finds b (rounds + 1) name b''

theorem attempt_of_taken (h : b.isTaken (placeholderName b.next) = true) :
    b.attempt = (none, { b with next := b.next + 1 }) := by
  rw [attempt, if_pos h]

theorem attempt_of_free (h : ¬ b.isTaken (placeholderName b.next) = true) :
    b.attempt = (some (placeholderName b.next), { b with next := b.next + 1 }) := by
  rw [attempt, if_neg h]

/-! ### How a search ends -/

/-- A search passes the ordinals whose names are taken, and ends behind the first that is free. -/
theorem Finds.of_taken {passed : Nat}
    (htaken : ∀ i, i < passed → b.isTaken (placeholderName (b.next + i)) = true)
    (hfree : ¬ b.isTaken (placeholderName (b.next + passed)) = true) :
    b.Finds (passed + 1) (placeholderName (b.next + passed))
      { b with next := b.next + passed + 1 } := by
  induction passed generalizing b with
  | zero => exact .found (attempt_of_free hfree)
  | succ passed ih =>
    refine .again (attempt_of_taken (htaken 0 (Nat.zero_lt_succ _))) ?_
    -- the ordinals count from the next state on; which names are taken stays as it is
    have hshift : ∀ i, b.next + 1 + i = b.next + (i + 1) := fun i => by omega
    have hrest := @ih { b with next := b.next + 1 }
      (fun i hi => by rw [hshift]; exact htaken (i + 1) (Nat.succ_lt_succ hi))
      (by rw [hshift]; exact hfree)
    simpa only [hshift] using hrest

/-- A search goes one way only. -/
theorem Finds.unique (h : b.Finds rounds name b') (h' : b.Finds rounds' name' b'') :
    rounds' = rounds ∧ name' = name ∧ b'' = b' := by
  induction h generalizing rounds' name' b'' with
  | found hfound =>
    cases h' with
    | found hfound' =>
      rw [hfound, Prod.mk.injEq, Option.some.injEq] at hfound'
      exact ⟨rfl, hfound'.1.symm, hfound'.2.symm⟩
    | again hagain rest => cases hfound.symm.trans hagain
  | again hagain rest ih =>
    cases h' with
    | found hfound => cases hagain.symm.trans hfound
    | again hagain' rest' =>
      rw [hagain, Prod.mk.injEq] at hagain'
      obtain ⟨rfl, hname, hstate⟩ := ih (hagain'.2 ▸ rest')
      exact ⟨rfl, hname, hstate⟩

/-- A search finds the name with the least free ordinal, and uses up all ordinals up to it. -/
theorem finds_iff (b : Binder) (rounds : Nat) (name : String) (b' : Binder) :
    b.Finds rounds name b' ↔ rounds = b.freeOrdinal - b.next + 1
      ∧ name = placeholderName b.freeOrdinal ∧ b' = { b with next := b.freeOrdinal + 1 } := by
  obtain ⟨⟨hle, hfree⟩, hleast⟩ := b.isLeast_freeOrdinal
  obtain ⟨passed, hpassed⟩ := Nat.exists_eq_add_of_le hle
  have hends : b.Finds (passed + 1) (placeholderName b.freeOrdinal)
      { b with next := b.freeOrdinal + 1 } := by
    rw [hpassed] at hfree hleast ⊢
    refine .of_taken (fun i hi => ?_) (fun htaken => hfree (isTaken_iff.1 htaken))
    by_contra hi'
    have hle : b.next + passed ≤ b.next + i :=
      hleast ⟨Nat.le_add_right _ _, fun hmem => hi' (isTaken_iff.2 hmem)⟩
    omega
  have hrounds : b.freeOrdinal - b.next + 1 = passed + 1 := by omega
  rw [hrounds]
  constructor
  · exact fun h => hends.unique h
  · rintro ⟨rfl, rfl, rfl⟩
    exact hends

/-! ### How long a search takes -/

/-- A search passes at most as many ordinals as there are names taken. -/
theorem freeOrdinal_le (b : Binder) :
    b.freeOrdinal ≤ b.next + (b.reserved ++ b.bound.names).dedup.length := by
  obtain ⟨n, hle, hbound, hfree⟩ := exists_unnamed (b.reserved ++ b.bound.names).dedup b.next
  rw [List.mem_dedup] at hfree
  exact Nat.le_trans (b.isLeast_freeOrdinal.2 ⟨hle, hfree⟩) hbound

/-- From any state the search for a name ends, in one way only, after at most one round more than
there are different names that are reserved or bound.  It finds the name with the least ordinal from
the next one on that is neither reserved nor bound, and nothing changes but the next ordinal, which
is the one behind it.  A literal that is bound gets this name. -/
theorem search_ends (b : Binder) :
    let n := b.freeOrdinal
    let name := "param" ++ toString n
    (∃ rounds, rounds ≤ (b.reserved ++ b.bound.names).dedup.length + 1
        ∧ ∀ rounds' name' b', b.Finds rounds' name' b'
          ↔ rounds' = rounds ∧ name' = name ∧ b' = { b with next := n + 1 })
      ∧ IsLeast {m | b.next ≤ m ∧ "param" ++ toString m ∉ b.reserved
          ∧ "param" ++ toString m ∉ b.bound.names} n
      ∧ ∀ v, b.mode = .placeholder → b.register v
          = (.ok (placeholder name), { b with next := n + 1, bound := b.bound.set name v }) := by
  intro n name
  refine ⟨⟨n - b.next + 1, ?_, b.finds_iff⟩, ?_, fun v hmode => ?_⟩
  · have hle : n ≤ b.next + (b.reserved ++ b.bound.names).dedup.length := b.freeOrdinal_le
    omega
  · have hleast := b.isLeast_freeOrdinal
    simp only [List.mem_append, not_or] at hleast
    exact hleast
  · rw [register, hmode]
    rfl

/-- Names are taken in front of the next ordinal and behind it, some of them twice, and there are
names that only look like generated ones. -/
def crowded : Binder where
  mode := .placeholder
  supplied := none
  reserved := ["param3", "param05", "param", "param1", "param3"]
  next := 3
  bound := .ofList [("param4", .null), ("title", .int 5)]

theorem search_ends_crowded :
    let b' : Binder := { crowded with next := 6 }
    (∃ rounds, rounds ≤ 7 ∧ crowded.Finds rounds "param5" b')
      ∧ crowded.register (.int 1)
        = (.ok ":param5", { b' with bound := crowded.bound.set "param5" (.int 1) }) := by
  intro b'
  have hordinal : crowded.freeOrdinal = 5 := by decide +kernel
  have hmode : crowded.mode = .placeholder := rfl
  have hlength : (crowded.reserved ++ crowded.bound.names).dedup.length = 6 := by decide +kernel
  obtain ⟨⟨rounds, hrounds, hfinds⟩, -, hregister⟩ := crowded.search_ends
  rw [hlength] at hrounds
  rw [hordinal] at hfinds
  refine ⟨⟨rounds, hrounds, (hfinds _ _ _).2 ⟨rfl, by decide, rfl⟩⟩, ?_⟩
  have hregistered := hregister (.int 1) hmode
  rw [hordinal] at hregistered
  exact hregistered

end Binder
end PersistenceQuery
