import PersistenceQuery.Keyed
import PersistenceQuery.Query.Value

/-!
# Bindings

Values by parameter name, in the order in which the names were first set.

## Main definitions

* `Bindings` — names with their values, every name once.
* `Bindings.set` — sets a name; a new one goes to the end, a known one keeps its place.
* `Bindings.get?` — the value of a name.
-/

namespace PersistenceQuery

/-- Sets a name in a list of names and values. -/
def setEntry (name : String) (value : Value) : List (String × Value) → List (String × Value)
  | [] => [(name, value)]
  | (n, v) :: rest => if n = name then (n, value) :: rest else (n, v) :: setEntry name value rest

theorem names_setEntry (name : String) (value : Value) (entries : List (String × Value)) :
    (setEntry name value entries).map Prod.fst
      = if name ∈ entries.map Prod.fst then entries.map Prod.fst
        else entries.map Prod.fst ++ [name] := by
  induction entries with
  | nil => simp [setEntry]
  | cons e rest ih =>
    obtain ⟨n, v⟩ := e
    by_cases h : n = name
    · simp [setEntry, h]
    · simp only [setEntry, h, if_false, List.map_cons, ih, List.mem_cons, Ne.symm h, false_or]
      split <;> simp

/-- Values by name, each name once, in the order in which the names came. -/
structure Bindings where
  entries : List (String × Value)
  nodup : (entries.map Prod.fst).Nodup

namespace Bindings

/-- No names at all. -/
def empty : Bindings := ⟨[], by simp⟩

instance : EmptyCollection Bindings := ⟨empty⟩

/-- The names, in order. -/
def names (b : Bindings) : List String := b.entries.map Prod.fst

/-- The number of names. -/
def size (b : Bindings) : Nat := b.entries.length

/-- The value of a name. -/
def get? (b : Bindings) (name : String) : Option Value := b.entries.lookup name

/-- The name has a value. -/
def contains (b : Bindings) (name : String) : Bool := b.names.contains name

/-- Gives a name a value.  A name that has one keeps its place; a new name goes to the end. -/
def set (b : Bindings) (name : String) (value : Value) : Bindings where
  entries := setEntry name value b.entries
  nodup := by
    rw [names_setEntry]
    split
    · exact b.nodup
    · rename_i h
      exact List.nodup_append.2 ⟨b.nodup, by simp, by
        intro x hx y hy hxy
        simp only [List.mem_singleton] at hy
        exact h (hy ▸ hxy ▸ hx)⟩

/-- The bindings that a list of names and values sets one after the other. -/
def ofList (entries : List (String × Value)) : Bindings :=
  entries.foldl (fun b e => b.set e.1 e.2) empty

theorem lookup_setEntry (name n : String) (value : Value) (entries : List (String × Value)) :
    (setEntry name value entries).lookup n
      = if n = name then some value else entries.lookup n := by
  induction entries with
  | nil => simp [setEntry, Keyed.lookup_cons]
  | cons e rest ih =>
    obtain ⟨m, v⟩ := e
    by_cases h : m = name
    · subst h
      by_cases hn : n = m <;> simp [setEntry, Keyed.lookup_cons, hn]
    · by_cases hn : n = m
      · subst hn
        simp [setEntry, h]
      · simp [setEntry, Keyed.lookup_cons, h, hn, ih]

/-- The name that is set has the new value, and the others keep theirs. -/
theorem get?_set (b : Bindings) (name n : String) (value : Value) :
    (b.set name value).get? n = if n = name then some value else b.get? n :=
  lookup_setEntry name n value b.entries

theorem names_set (b : Bindings) (name : String) (value : Value) :
    (b.set name value).names
      = if name ∈ b.names then b.names else b.names ++ [name] :=
  names_setEntry name value b.entries

theorem contains_iff {b : Bindings} {name : String} : b.contains name = true ↔ name ∈ b.names := by
  simp [contains]

/-- A new name goes to the end. -/
theorem entries_set_of_notMem {b : Bindings} {name : String} {value : Value}
    (h : name ∉ b.names) : (b.set name value).entries = b.entries ++ [(name, value)] := by
  have general : ∀ entries : List (String × Value), name ∉ entries.map Prod.fst →
      setEntry name value entries = entries ++ [(name, value)] := by
    intro entries
    induction entries with
    | nil => intro _; rfl
    | cons e rest ih =>
      intro h
      obtain ⟨n, v⟩ := e
      simp only [List.map_cons, List.mem_cons, not_or] at h
      simp [setEntry, Ne.symm h.1, ih h.2]
  exact general b.entries h

end Bindings
end PersistenceQuery
