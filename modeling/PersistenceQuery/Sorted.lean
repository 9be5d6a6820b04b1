import PersistenceQuery.Keyed

/-!
# Entries sorted by key

Lists of keys with values in the order of the keys, each key once.

## Main definitions

* `Sorted.set` — sets a key; the list stays sorted.
* `Sorted.ofList` — the entries of a list, of those with the same key the last.
-/

namespace PersistenceQuery
namespace Sorted

/-- Sets a key in a sorted list of entries. -/
def set {α : Type} (key : String) (value : α) : List (String × α) → List (String × α)
  | [] => [(key, value)]
  | (k, v) :: rest =>
    if key = k then (key, value) :: rest
    else if key < k then (key, value) :: (k, v) :: rest
    else (k, v) :: set key value rest

/-- The entries of a list, sorted by key, where a later entry replaces an earlier one. -/
def ofList {α : Type} (entries : List (String × α)) : List (String × α) :=
  entries.foldl (fun done e => set e.1 e.2 done) []

/-- A key that is set has its value, and the others keep theirs. -/
theorem lookup_set {α : Type} (key k : String) (value : α) (entries : List (String × α)) :
    (set key value entries).lookup k = if k = key then some value else entries.lookup k := by
  induction entries with
  | nil => simp [set, Keyed.lookup_cons]
  | cons e rest ih =>
    obtain ⟨l, v⟩ := e
    simp only [set]
    split
    · next h =>
      subst h
      by_cases hk : k = key <;> simp [Keyed.lookup_cons, hk]
    split
    · simp [Keyed.lookup_cons]
    · next h _ =>
      by_cases hk : k = l
      · simp [hk, Ne.symm h]
      · simp [Keyed.lookup_cons, hk, ih]

end Sorted
end PersistenceQuery
