import Mathlib.Data.List.Forall2
import Mathlib.Data.List.Nodup
import PersistenceQuery.Exchange.Decode

/-!
# JSON up to the order of fields

The fields of an object are told apart by their keys, so whoever keeps a JSON value may put them in
another order, at any depth.  What is read from a value should not depend on that.

## Main definitions

* `Json.Reordered` — the same value with the fields of its objects in any order.
* `Json.Reads` — what is read from a value, whatever the order of its fields.

## Main results

* `Json.Reordered.isReadable` — nothing becomes unreadable in another order.
* `Json.Reordered.exists_record` — all fields of an object with distinct keys are found as a record.
* `Json.Record.Holds.required`, `Json.Record.Holds.optional`, `Json.Record.Holds.defaulted` — what
  is read from a field that is there.
* `Json.Reads.items` — what is read from the items of an array, one by one.
-/

namespace PersistenceQuery
namespace Json

/-! ### Other orders -/

/-- The first value is the second one with the fields of its objects in any order. -/
inductive Reordered : Json → Json → Prop
  | refl (j : Json) : Reordered j j
  | array {items₁ items₂ : List Json} (hitems : List.Forall₂ Reordered items₁ items₂) :
    Reordered (.array items₁) (.array items₂)
  /-- The keys in any order, and reordered values at the same keys. -/
  | object {fields₁ fields₂ : List (String × Json)}
      (hkeys : (fields₁.map Prod.fst).Perm (fields₂.map Prod.fst))
      (hvalues : ∀ key v w, (key, v) ∈ fields₁ → (key, w) ∈ fields₂ → Reordered v w) :
    Reordered (.object fields₁) (.object fields₂)

/-- `read` takes `a` from the value `j`, whatever the order of its fields. -/
def Reads {α : Type} (read : Json → Option α) (j : Json) (a : α) : Prop :=
  ∀ i : Json, i.Reordered j → read i = some a

/-! ### Fields with distinct keys -/

section Fields
variable {fields : List (String × Json)} {key : String} {v : Json}

/-- Among distinct keys, each field is found by its key. -/
theorem lookup_of_mem (hnodup : (fields.map Prod.fst).Nodup) (hmem : (key, v) ∈ fields) :
    fields.lookup key = some v := by
  induction fields with
  | nil => cases hmem
  | cons f rest ih =>
    obtain ⟨k, w⟩ := f
    rw [List.map_cons, List.nodup_cons] at hnodup
    rw [Keyed.lookup_cons]
    rcases List.mem_cons.1 hmem with heq | hrest
    · cases heq
      rw [if_pos rfl]
    · have hkey : key ≠ k := by
        rintro rfl
        exact hnodup.1 (List.mem_map.2 ⟨(key, v), hrest, rfl⟩)
      rw [if_neg hkey]
      exact ih hnodup.2 hrest

/-- Among distinct keys, no key has two values. -/
theorem eq_of_mem {w : Json} (hnodup : (fields.map Prod.fst).Nodup) (hv : (key, v) ∈ fields)
    (hw : (key, w) ∈ fields) : v = w :=
  Option.some.inj ((lookup_of_mem hnodup hv).symm.trans (lookup_of_mem hnodup hw))

theorem hasOnce_of_nodup (hnodup : (fields.map Prod.fst).Nodup) (key : String) :
    hasOnce fields key = true := by
  have hcount := List.nodup_iff_count_le_one.1 hnodup key
  rw [List.count, List.countP_map, List.countP_eq_length_filter] at hcount
  exact decide_eq_true hcount

theorem fieldInside_eq_lookup (key : String) (fields : List (String × Json)) :
    (fieldInside key fields).map Subtype.val = fields.lookup key := by
  induction fields with
  | nil => rfl
  | cons f rest ih =>
    obtain ⟨k, w⟩ := f
    rw [Keyed.lookup_cons, fieldInside]
    by_cases h : k = key
    · rw [if_pos h, if_pos h.symm]
      rfl
    · rw [if_neg h, if_neg (Ne.symm h), ← ih, Option.map_map]
      rfl

end Fields

/-! ### The parts of a reordered value -/

namespace Reordered

variable {j v : Json}

/-- The same fields in another order. -/
theorem of_perm {fields₁ fields₂ : List (String × Json)} (hperm : fields₁.Perm fields₂)
    (hnodup : (fields₂.map Prod.fst).Nodup) : Reordered (.object fields₁) (.object fields₂) := by
  refine .object (hperm.map Prod.fst) fun key v w hv hw => ?_
  rw [eq_of_mem hnodup (hperm.mem_iff.1 hv) hw]
  exact .refl w

/-- Another order in the value of an only field. -/
theorem single {key : String} {w : Json} (h : v.Reordered w) :
    Reordered (.object [(key, v)]) (.object [(key, w)]) := by
  refine .object (.refl _) fun k v₁ w₁ hv hw => ?_
  cases List.mem_singleton.1 hv
  cases List.mem_singleton.1 hw
  exact h

theorem eq_string {s : String} (h : j.Reordered (.string s)) : j = .string s := by
  cases h
  rfl

theorem eq_null (h : j.Reordered .null) : j = .null := by
  cases h
  rfl

/-- Nothing else becomes `null` in another order. -/
theorem null_eq (h : Json.null.Reordered j) : j = .null := by
  cases h
  rfl

theorem exists_items {items : List Json} (h : j.Reordered (.array items)) :
    ∃ items₁, j = .array items₁ ∧ List.Forall₂ Reordered items₁ items := by
  cases h with
  | refl => exact ⟨items, rfl, List.forall₂_same.2 fun v _ => .refl v⟩
  | array hitems => exact ⟨_, rfl, hitems⟩

theorem exists_fields {fields : List (String × Json)} (hnodup : (fields.map Prod.fst).Nodup)
    (h : j.Reordered (.object fields)) :
    ∃ fields₁, j = .object fields₁ ∧ (fields₁.map Prod.fst).Perm (fields.map Prod.fst)
      ∧ ∀ key v w, (key, v) ∈ fields₁ → (key, w) ∈ fields → v.Reordered w := by
  cases h with
  | refl =>
    refine ⟨fields, rfl, .refl _, fun key v w hv hw => ?_⟩
    rw [eq_of_mem hnodup hv hw]
    exact .refl w
  | object hkeys hvalues => exact ⟨_, rfl, hkeys, hvalues⟩

/-- An object with one field keeps its form. -/
theorem exists_single {key : String} (h : j.Reordered (.object [(key, v)])) :
    ∃ w, j = .object [(key, w)] ∧ w.Reordered v := by
  have hnodup : ([(key, v)].map Prod.fst).Nodup := List.nodup_singleton key
  obtain ⟨fields, rfl, hkeys, hvalues⟩ := exists_fields hnodup h
  obtain ⟨⟨k, w⟩, rfl, hkey⟩ := List.map_eq_singleton_iff.1 (List.perm_singleton.1 hkeys)
  obtain rfl : k = key := hkey
  exact ⟨w, rfl, hvalues k w v List.mem_cons_self List.mem_cons_self⟩

/-- Each field is found by its key among the fields in the other order. -/
theorem exists_lookup {fields : List (String × Json)} (hnodup : (fields.map Prod.fst).Nodup)
    (h : j.Reordered (.object fields)) :
    ∃ fields₁, j = .object fields₁ ∧ (∀ key, hasOnce fields₁ key = true)
      ∧ ∀ key v, (key, v) ∈ fields → ∃ w, fields₁.lookup key = some w ∧ w.Reordered v := by
  obtain ⟨fields₁, rfl, hkeys, hvalues⟩ := exists_fields hnodup h
  have hnodup₁ : (fields₁.map Prod.fst).Nodup := hkeys.nodup_iff.2 hnodup
  refine ⟨fields₁, rfl, hasOnce_of_nodup hnodup₁, fun key v hv => ?_⟩
  have hkey : key ∈ fields₁.map Prod.fst := hkeys.mem_iff.2 (List.mem_map_of_mem hv)
  obtain ⟨⟨k, w⟩, hw, rfl⟩ := List.mem_map.1 hkey
  exact ⟨w, lookup_of_mem hnodup₁ hw, hvalues k w v hw hv⟩

end Reordered

/-! ### Readable values -/

theorem areReadable_iff {vs : List Json} :
    areReadable vs = true ↔ ∀ v ∈ vs, v.isReadable = true := by
  induction vs with
  | nil => simp [areReadable]
  | cons v vs ih => rw [areReadable, Bool.and_eq_true, ih, List.forall_mem_cons]

theorem fieldsReadable_iff {fields : List (String × Json)} :
    fieldsReadable fields = true ↔ ∀ key v, (key, v) ∈ fields → v.isReadable = true := by
  induction fields with
  | nil => simp [fieldsReadable]
  | cons f fields ih =>
    obtain ⟨k, w⟩ := f
    rw [fieldsReadable, Bool.and_eq_true, ih]
    constructor
    · rintro ⟨hw, hrest⟩ key v hmem
      rcases List.mem_cons.1 hmem with heq | hmem
      · cases heq
        exact hw
      · exact hrest key v hmem
    · intro h
      exact ⟨h k w List.mem_cons_self, fun key v hmem => h key v (List.mem_cons_of_mem _ hmem)⟩

/-- Items that correspond one by one. -/
theorem exists_mem_of_forall₂ {R : Json → Json → Prop} {vs ws : List Json}
    (h : List.Forall₂ R vs ws) : ∀ v ∈ vs, ∃ w ∈ ws, R v w := by
  induction h with
  | nil => simp
  | cons hr _ ih => grind

/-- Nothing becomes unreadable in another order. -/
theorem Reordered.isReadable :
    ∀ {i : Json} (j : Json), i.Reordered j → j.isReadable = true → i.isReadable = true
  | _, .array items, h, hj => by
    obtain ⟨vs, rfl, hitems⟩ := h.exists_items
    refine areReadable_iff.2 fun v hv => ?_
    obtain ⟨w, hw, hvw⟩ := exists_mem_of_forall₂ hitems v hv
    exact Reordered.isReadable w hvw (areReadable_iff.1 hj w hw)
  | _, .object fields, h, hj => by
    cases h with
    | refl => exact hj
    | object hkeys hvalues =>
      refine fieldsReadable_iff.2 fun key v hv => ?_
      -- the recursion is on the value at the same key, which lies inside the fields
      obtain ⟨⟨k, w⟩, hw, rfl⟩ := List.mem_map.1 (hkeys.mem_iff.1 (List.mem_map.2 ⟨_, hv, rfl⟩))
      have hfield : sizeOf w < sizeOf (k, w) := by
        rw [Prod.mk.sizeOf_spec]
        omega
      have hfields := List.sizeOf_lt_of_mem hw
      exact Reordered.isReadable w (hvalues k v w hv hw) (fieldsReadable_iff.1 hj k w hw)
  | _, .null, h, hj | _, .bool _, h, hj | _, .integer _, h, hj | _, .real _, h, hj
  | _, .string _, h, hj | _, .unreadable, h, hj => by
    cases h
    exact hj
termination_by _ j => sizeOf j

/-! ### Records -/

/-- The record finds each of the fields, its value perhaps reordered. -/
def Record.Holds {j : Json} (r : Record j) (fields : List (String × Json)) : Prop :=
  ∀ key v, (key, v) ∈ fields → ∃ w : Inside j, r.find? key = some w ∧ w.1.Reordered v

/-- The fields of an object with distinct keys, in any order, are found as a record of the
keys. -/
theorem Reordered.exists_record {j : Json} {fields : List (String × Json)} {names : List String}
    (h : j.Reordered (.object fields)) (hnames : fields.map Prod.fst = names)
    (hnodup : names.Nodup) : ∃ r, j.record? names = some r ∧ r.Holds fields := by
  obtain ⟨fields₁, rfl, honce, hfound⟩ := h.exists_lookup (hnames ▸ hnodup)
  refine ⟨_, if_pos (List.all_eq_true.2 fun key _ => honce key), fun key v hv => ?_⟩
  obtain ⟨w, hw, hreordered⟩ := hfound key v hv
  rw [← fieldInside_eq_lookup, Option.map_eq_some_iff] at hw
  obtain ⟨⟨w, hsize⟩, hw, rfl⟩ := hw
  exact ⟨⟨w, _⟩, congrArg (Option.map _) hw, hreordered⟩

namespace Record.Holds

variable {j v : Json} {r : Record j} {fields : List (String × Json)} {key : String} {α : Type}
  {read : Inside j → Option α} {a : α}

theorem required (hr : r.Holds fields) (hmem : (key, v) ∈ fields)
    (hread : ∀ w : Inside j, w.1.Reordered v → read w = some a) :
    r.required key read = some a := by
  obtain ⟨w, hw, hreordered⟩ := hr key v hmem
  rw [Record.required, hw]
  exact hread w hreordered

theorem defaulted (hr : r.Holds fields) (hmem : (key, v) ∈ fields) (absent : α)
    (hread : ∀ w : Inside j, w.1.Reordered v → read w = some a) :
    r.defaulted key absent read = some a := by
  obtain ⟨w, hw, hreordered⟩ := hr key v hmem
  rw [Record.defaulted, hw]
  exact hread w hreordered

/-- What may be absent is read as such from `null`, which nothing that is there may be written
as. -/
theorem optional {encode : α → Json} {o : Option α} (hr : r.Holds fields)
    (hmem : (key, Json.optional encode o) ∈ fields) (hnull : ∀ b ∈ o, encode b ≠ .null)
    (hread : ∀ b ∈ o, ∀ w : Inside j, w.1.Reordered (encode b) → read w = some b) :
    r.optional key read = some o := by
  obtain ⟨⟨w, hsize⟩, hw, hreordered⟩ := hr key _ hmem
  rw [Record.optional, hw]
  cases o with
  | none =>
    obtain rfl : w = .null := hreordered.eq_null
    rfl
  | some b =>
    have hreadb := hread b rfl ⟨w, hsize⟩ hreordered
    -- only `null` is taken for something absent, before the value is read
    cases w with
    | null => exact absurd hreordered.null_eq (hnull b rfl)
    | _ =>
      show (read _).map some = _
      rw [hreadb]
      rfl

/-- What may be absent and is written as a string. -/
theorem optionalText {name : α → String} {read : Json → Option α} {o : Option α}
    (hr : r.Holds fields) (hmem : (key, Json.optional (fun b => .string (name b)) o) ∈ fields)
    (hread : ∀ b, Reads read (.string (name b)) b) : r.optional key (leaf read) = some o :=
  hr.optional hmem (fun _ _ => Json.noConfusion) fun b _ w => hread b w.1

end Record.Holds

/-! ### Readers -/

/-- A step of a reader that succeeds. -/
theorem andThen {α β : Type} {x : Option α} {a : α} {f : α → Option β} {b : β}
    (hx : x = some a) (hf : f a = some b) : (x >>= f) = some b :=
  Option.bind_eq_some_iff.2 ⟨a, hx, hf⟩

namespace Reads

variable {α β : Type} {read : Json → Option α} {j : Json} {a : α}

theorem map (h : Reads read j a) (f : α → β) : Reads (fun i => (read i).map f) j (f a) :=
  fun i hi => congrArg (Option.map f) (h i hi)

/-- What has fields is read as a record that holds them. -/
theorem record {fields : List (String × Json)} {names : List String}
    (hnames : fields.map Prod.fst = names) (hnodup : names.Nodup)
    (h : ∀ {i : Json} {r : Record i}, i.record? names = some r → r.Holds fields →
      read i = some a) : Reads read (.object fields) a := by
  intro i hi
  obtain ⟨r, hr, holds⟩ := hi.exists_record hnames hnodup
  exact h hr holds

theorem text (s : String) : Reads text? (.string s) s := by
  intro i hi
  rw [hi.eq_string]
  rfl

theorem flag (b : Bool) : Reads flag? (.bool b) b := by
  intro i hi
  cases hi
  rfl

theorem character (c : Char) : Reads character? (.string (String.singleton c)) c := by
  intro i hi
  rw [hi.eq_string, character?]
  simp

theorem choice (s : String) : Reads choice? (.string s) s := by
  intro i hi
  rw [hi.eq_string]
  rfl

theorem named {ofName? : String → Option α} {name : String} (h : ofName? name = some a) :
    Reads (named? ofName?) (.string name) a := by
  intro i hi
  rw [named?, choice name i hi]
  exact h

section Arrays
variable {encode : α → Json} {as : List α}

theorem mapM_of_reordered {vs : List Json} (h : ∀ b ∈ as, Reads read (encode b) b)
    (hvs : List.Forall₂ Reordered vs (as.map encode)) : vs.mapM read = some as := by
  induction as generalizing vs with
  | nil =>
    cases hvs
    rfl
  | cons b as ih =>
    cases hvs with
    | cons hv hrest =>
      rw [List.mapM_cons]
      exact andThen (h b List.mem_cons_self _ hv) <|
        andThen (ih (fun c hc => h c (List.mem_cons_of_mem _ hc)) hrest) rfl

theorem list (h : ∀ b ∈ as, Reads read (encode b) b) :
    Reads (list? read) (.array (as.map encode)) as := by
  intro i hi
  obtain ⟨vs, rfl, hvs⟩ := hi.exists_items
  exact mapM_of_reordered h hvs

theorem map_itemsInside (vs : List Json) : (itemsInside vs).map Subtype.val = vs := by
  induction vs with
  | nil => rfl
  | cons v vs ih =>
    rw [itemsInside, List.map_cons, List.map_map]
    exact congrArg (v :: ·) ih

/-- The items of an array, each read as a value inside it. -/
theorem items (h : ∀ b ∈ as, Reads read (encode b) b) :
    Reads (fun i => i.items? >>= fun inside => inside.mapM fun w => read w.1)
      (.array (as.map encode)) as := by
  intro i hi
  obtain ⟨vs, rfl, hvs⟩ := hi.exists_items
  have hread := mapM_of_reordered h hvs
  rw [← map_itemsInside vs, List.mapM_map] at hread
  refine andThen rfl ?_
  rw [List.mapM_map]
  exact hread

end Arrays

end Reads
end Json
end PersistenceQuery
