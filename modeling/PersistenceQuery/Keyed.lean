/-!
# Entries by key

Lists of keys with values, where the first entry of a key counts.

## Main definitions

* `Keyed.lookup_cons`, `Keyed.lookup_filter_ne` — what is found behind an entry more, and after
  the entries of a key are removed.
-/

namespace PersistenceQuery
namespace Keyed

variable {α : Type}

/-- A key is found in the first entry, or else behind it. -/
theorem lookup_cons (key k : String) (value : α) (entries : List (String × α)) :
    ((key, value) :: entries).lookup k = if k = key then some value else entries.lookup k := by
  by_cases h : k = key
  · simp [h]
  · have hb : (k == key) = false := by simp [h]
    simp [List.lookup_cons, h, hb]

/-- A key whose entries are removed is not found, and the others are found as before. -/
theorem lookup_filter_ne (key k : String) (entries : List (String × α)) :
    (entries.filter (·.1 != key)).lookup k = if k = key then none else entries.lookup k := by
  induction entries with
  | nil => simp
  | cons e rest ih =>
    obtain ⟨l, v⟩ := e
    by_cases hl : l = key
    · subst hl
      -- the entry goes, and it was not the one that is looked for
      by_cases hk : k = l
      · simpa [hk] using ih
      · simpa [lookup_cons, hk] using ih
    · by_cases hk : k = l
      · subst hk
        simp [hl]
      · simpa [lookup_cons, hl, hk] using ih

end Keyed
end PersistenceQuery
