import Mathlib.Data.List.Nodup
import Mathlib.Data.List.Perm.Basic
import PersistenceQuery.Sorted

/-!
# Entries by key, sorted or not

Where the keys of entries are distinct, the entries are a mapping and their order does not matter.
Sorting makes keys distinct, and where they are distinct already it only puts the entries in order.

## Main results

* `Keyed.lookup_perm` — entries in another order give the same values.
* `Sorted.ofList_perm` — entries with distinct keys are all kept.
* `Sorted.lookup_ofList` — what is found among sorted entries is the last entry of a key.
* `Sorted.nodup_ofList` — sorted entries have distinct keys.
-/

namespace PersistenceQuery

namespace Keyed

variable {α : Type}

/-- Among distinct keys, what is found by a key is the entry of the key. -/
theorem lookup_eq_some_iff {entries : List (String × α)} (hnodup : (entries.map Prod.fst).Nodup)
    {key : String} {value : α} : entries.lookup key = some value ↔ (key, value) ∈ entries := by
  induction entries with
  | nil => simp
  | cons e entries ih =>
    obtain ⟨k, v⟩ := e
    rw [List.map_cons, List.nodup_cons] at hnodup
    rw [lookup_cons, List.mem_cons, Prod.mk.injEq]
    by_cases hk : key = k
    · subst hk
      have hkey : (key, value) ∉ entries := fun hmem => hnodup.1 (List.mem_map.2 ⟨_, hmem, rfl⟩)
      simp [hkey, eq_comm]
    · rw [if_neg hk, ih hnodup.2]
      simp [hk]

/-- The order of distinct keys does not matter. -/
theorem lookup_perm {as bs : List (String × α)} (h : as.Perm bs)
    (hnodup : (as.map Prod.fst).Nodup) (key : String) : as.lookup key = bs.lookup key := by
  have hnodup' : (bs.map Prod.fst).Nodup := (h.map Prod.fst).nodup_iff.1 hnodup
  refine Option.ext fun value => ?_
  rw [lookup_eq_some_iff hnodup, lookup_eq_some_iff hnodup', h.mem_iff]

end Keyed

namespace Sorted

variable {α β : Type}

/-- A new key is an entry more. -/
theorem set_perm {key : String} {entries : List (String × α)} (h : key ∉ entries.map Prod.fst)
    (value : α) : (set key value entries).Perm ((key, value) :: entries) := by
  induction entries with
  | nil => exact .refl _
  | cons e entries ih =>
    obtain ⟨k, v⟩ := e
    rw [List.map_cons, List.mem_cons, not_or] at h
    rw [set, if_neg h.1]
    split
    · exact .refl _
    · exact ((ih h.2).cons _).trans (.swap _ _ _)

/-- No entry is lost where the keys are distinct. -/
theorem ofList_perm {entries : List (String × α)} (h : (entries.map Prod.fst).Nodup) :
    (ofList entries).Perm entries := by
  -- the keys that are set already are distinct from those to come
  suffices general : ∀ done : List (String × α), ((done ++ entries).map Prod.fst).Nodup →
      (entries.foldl (fun done e => set e.1 e.2 done) done).Perm (done ++ entries) from
    general [] h
  clear h
  intro done hnodup
  induction entries generalizing done with
  | nil =>
    rw [List.append_nil]
    exact .refl _
  | cons e entries ih =>
    have hmiddle : (done ++ e :: entries).Perm (e :: done ++ entries) := List.perm_middle
    have hmiddled := (hmiddle.map Prod.fst).nodup_iff.1 hnodup
    have hset : (set e.1 e.2 done).Perm (e :: done) := by
      rw [List.cons_append, List.map_cons, List.nodup_cons, List.map_append, List.mem_append,
        not_or] at hmiddled
      exact set_perm hmiddled.1.1 e.2
    have hall := hset.append_right entries
    exact (ih _ ((hall.map Prod.fst).nodup_iff.2 hmiddled)).trans (hall.trans hmiddle.symm)

theorem set_map (f : α → β) (key : String) (value : α) (entries : List (String × α)) :
    set key (f value) (entries.map fun e => (e.1, f e.2))
      = (set key value entries).map fun e => (e.1, f e.2) := by
  induction entries with
  | nil => rfl
  | cons e entries ih =>
    rw [List.map_cons, set, set, ih]
    split
    · rfl
    · split <;> rfl

/-- Values are changed before or after the sorting. -/
theorem ofList_map (f : α → β) (entries : List (String × α)) :
    ofList (entries.map fun e => (e.1, f e.2)) = (ofList entries).map fun e => (e.1, f e.2) := by
  suffices general : ∀ done : List (String × α),
      (entries.map fun e => (e.1, f e.2)).foldl (fun done e => set e.1 e.2 done)
          (done.map fun e => (e.1, f e.2))
        = (entries.foldl (fun done e => set e.1 e.2 done) done).map fun e => (e.1, f e.2) from
    general []
  intro done
  induction entries generalizing done with
  | nil => rfl
  | cons e entries ih => rw [List.map_cons, List.foldl_cons, List.foldl_cons, ← ih, ← set_map]

/-- What is found by a key is the last entry of the key. -/
theorem lookup_ofList (entries : List (String × α)) (key : String) :
    (ofList entries).lookup key = entries.reverse.lookup key := by
  -- what is set already counts only for a key that does not come again
  suffices general : ∀ done : List (String × α),
      (entries.foldl (fun done e => set e.1 e.2 done) done).lookup key
        = (entries.reverse.lookup key).or (done.lookup key) by
    have h := general []
    rwa [List.lookup_nil, Option.or_none] at h
  intro done
  induction entries generalizing done with
  | nil => rfl
  | cons e entries ih =>
    rw [List.foldl_cons, ih, lookup_set, List.reverse_cons, List.lookup_append, Option.or_assoc,
      Keyed.lookup_cons]
    split <;> simp

/-! ### The order of keys -/

/-- Every key is less than those behind it. -/
def Ascends (entries : List (String × α)) : Prop := entries.Pairwise fun a b => a.1 < b.1

theorem mem_set {key : String} {value : α} {entries : List (String × α)} {e : String × α}
    (h : e ∈ set key value entries) : e = (key, value) ∨ e ∈ entries := by
  induction entries with
  | nil => exact .inl (List.mem_singleton.1 h)
  | cons first entries ih =>
    rw [set] at h
    split at h
    · exact (List.mem_cons.1 h).imp_right (List.mem_cons_of_mem _)
    · split at h
      · exact List.mem_cons.1 h
      · rcases List.mem_cons.1 h with rfl | h
        · exact .inr List.mem_cons_self
        · exact (ih h).imp_right (List.mem_cons_of_mem _)

/-- A key is set where it belongs. -/
theorem ascends_set {entries : List (String × α)} (h : Ascends entries) (key : String) (value : α) :
    Ascends (set key value entries) := by
  induction entries with
  | nil => exact List.pairwise_singleton _ _
  | cons e entries ih =>
    obtain ⟨hfirst, hrest⟩ := List.pairwise_cons.1 h
    rw [set]
    split
    · next hkey =>
      rw [hkey]
      exact List.pairwise_cons.2 ⟨hfirst, hrest⟩
    · next hkey =>
      split
      · next hlt =>
        refine List.pairwise_cons.2 ⟨fun a ha => ?_, h⟩
        rcases List.mem_cons.1 ha with rfl | ha
        · exact hlt
        · exact String.lt_trans hlt (hfirst a ha)
      · next hlt =>
        have hle : e.1 ≤ key := String.not_lt.1 hlt
        -- neither equal nor less, so the key belongs behind the first one
        have hgt : e.1 < key := String.not_le.1 fun hge => hkey (String.le_antisymm hge hle)
        refine List.pairwise_cons.2 ⟨fun a ha => ?_, ih hrest⟩
        rcases mem_set ha with rfl | ha
        · exact hgt
        · exact hfirst a ha

/-- Keys that ascend are distinct. -/
theorem Ascends.nodup {entries : List (String × α)} (h : Ascends entries) :
    (entries.map Prod.fst).Nodup := by
  rw [List.Nodup, List.pairwise_map]
  refine h.imp fun {a b} hlt heq => ?_
  rw [heq] at hlt
  exact String.lt_irrefl _ hlt

/-- Entries that are set one after the other stay in order. -/
theorem ascends_foldl_set {done : List (String × α)} (h : Ascends done)
    (entries : List (String × α)) :
    Ascends (entries.foldl (fun done e => set e.1 e.2 done) done) := by
  induction entries generalizing done with
  | nil => exact h
  | cons e entries ih => exact ih (ascends_set h e.1 e.2)

/-- Sorted entries have distinct keys. -/
theorem nodup_ofList (entries : List (String × α)) : ((ofList entries).map Prod.fst).Nodup :=
  (ascends_foldl_set List.Pairwise.nil entries).nodup

end Sorted

end PersistenceQuery
