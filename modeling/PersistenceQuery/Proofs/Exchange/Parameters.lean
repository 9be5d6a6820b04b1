import PersistenceQuery.Console.Run
import PersistenceQuery.Proofs.Exchange.Sorted
import PersistenceQuery.Proofs.Exchange.Value
import PersistenceQuery.Proofs.Json.Printed

/-!
# Reading back parameters

The parameters of a rendered query can be given to a query again.  Their values are written in the
tagged form, which is an object and so never taken for a plain value, and settling the object of
the parameters sorts them by name but loses none of them.

## Main definitions

* `Value.IsKept` — a floating point number is read back from its text.

## Main results

* `Value.ofGiven?_tagged` — the tagged form of a value is read back, settled or not.
* `Bindings.exists_ofFields` — the fields of parameters are read back as the parameters.
* `Console.readParams_rendered` — so is a file with the parameters of a rendered query.
-/

namespace PersistenceQuery

/-- The value is no floating point number that is not read back from its text. -/
def Value.IsKept : Value → Prop
  | .float x => x.IsKept
  | _ => True

/-! ### Bindings -/

/-- Entries with distinct names are set as they are. -/
theorem Bindings.entries_ofList {entries : List (String × Value)}
    (h : (entries.map Prod.fst).Nodup) : (Bindings.ofList entries).entries = entries := by
  -- the names that are set already stay in front, and none of them comes again
  suffices general : ∀ b : Bindings, (b.names ++ entries.map Prod.fst).Nodup →
      (entries.foldl (fun b e => b.set e.1 e.2) b).entries = b.entries ++ entries from
    general .empty h
  clear h
  intro b hnodup
  induction entries generalizing b with
  | nil => exact (List.append_nil _).symm
  | cons e entries ih =>
    have hnew : e.1 ∉ b.names := fun hmem =>
      (List.nodup_append.1 hnodup).2.2 e.1 hmem e.1 List.mem_cons_self rfl
    have hnames : (b.set e.1 e.2).names = b.names ++ [e.1] := by
      rw [Bindings.names_set, if_neg hnew]
    have hrest := ih (b.set e.1 e.2) (by
      rw [hnames, List.append_assoc]
      exact hnodup)
    rw [List.foldl_cons, hrest, Bindings.entries_set_of_notMem hnew, List.append_assoc]
    rfl

/-! ### Settled values -/

namespace Json

theorem settledItems_eq_map (items : List Json) : settledItems items = items.map settled := by
  induction items with
  | nil => rfl
  | cons j items ih => rw [settledItems, ih, List.map_cons]

theorem settledFields_eq_map (fields : List (String × Json)) :
    settledFields fields = fields.map fun f => (f.1, f.2.settled) := by
  induction fields with
  | nil => rfl
  | cons f fields ih => rw [settledFields, ih, List.map_cons]

/-- Settling an object with distinct keys only reorders it. -/
theorem Reordered.settled_object {fields : List (String × Json)}
    (hnodup : (fields.map Prod.fst).Nodup) (h : ∀ f ∈ fields, f.2.settled.Reordered f.2) :
    (Json.object fields).settled.Reordered (.object fields) := by
  have hperm := Sorted.ofList_perm hnodup
  rw [settled, settle, settledFields_eq_map, Sorted.ofList_map]
  refine .object ?_ fun key v w hv hw => ?_
  · rw [List.map_map]
    exact hperm.map Prod.fst
  · obtain ⟨f, hf, heq⟩ := List.mem_map.1 hv
    cases heq
    rw [eq_of_mem hnodup hw (hperm.mem_iff.1 hf)]
    exact h f (hperm.mem_iff.1 hf)

theorem Reordered.settled_array {items : List Json} (h : ∀ j ∈ items, j.settled.Reordered j) :
    (Json.array items).settled.Reordered (.array items) := by
  rw [settled, settledItems_eq_map]
  refine .array ?_
  rw [List.forall₂_map_left_iff]
  exact List.forall₂_same.2 h

end Json

namespace Value

theorem settled_payload {v : Value} {payload : Json} (h : v.payload? = some payload) :
    payload.settled.Reordered payload := by
  cases v with
  | null => cases h
  | enum typeName constant =>
    cases h
    refine .settled_object (by simp) ?_
    simp [Json.settled, Json.Reordered.refl]
  | bytes data =>
    cases h
    refine .settled_array fun j hj => ?_
    obtain ⟨b, -, rfl⟩ := List.mem_map.1 hj
    exact .refl _
  | float x =>
    cases h
    rw [Json.ofBinary64]
    split <;> exact .refl _
  | _ =>
    cases h
    exact .refl _

theorem settled_tagged (v : Value) : v.tagged.settled.Reordered v.tagged := by
  rw [tagged]
  cases h : v.payload? with
  | none => exact .settled_object (by simp) (by simp [Json.settled, Json.Reordered.refl])
  | some payload =>
    exact .settled_object (by simp) (by simp [Json.settled, Json.Reordered.refl, settled_payload h])

/-- The tagged form is an object, which no plain value is, so it is read as the value. -/
theorem ofGiven?_tagged {v : Value} (hv : v.isFinite = true) :
    ofGiven? v.tagged.settled = some v := by
  have htagged := reads_tagged hv v.tagged.settled v.settled_tagged
  rw [ofGiven?, htagged]
  rfl

end Value

/-! ### Parameters -/

/-- A name with the tagged form of its value. -/
def taggedEntry (e : String × Value) : String × Json := (e.1, e.2.tagged.settled)

theorem mapM_readField {entries : List (String × Value)}
    (h : ∀ e ∈ entries, e.2.isFinite = true) :
    (entries.map taggedEntry).mapM readField = .ok entries := by
  induction entries with
  | nil => rfl
  | cons e entries ih =>
    rw [List.forall_mem_cons] at h
    have hfirst : readField (taggedEntry e) = .ok e := by
      rw [readField, taggedEntry, Value.ofGiven?_tagged h.1]
    rw [List.map_cons, List.mapM_cons, hfirst, ih h.2]
    rfl

namespace Bindings

/-- The settled object of parameters holds them in the order of their names. -/
theorem settled_toJson (b : Bindings) :
    b.toJson.settled = .object ((Sorted.ofList b.entries).map taggedEntry) := by
  rw [toJson, Json.settled, Json.settle, Json.settledFields_eq_map, List.map_map]
  exact congrArg _ (Sorted.ofList_map (fun v : Value => v.tagged.settled) b.entries)

theorem isReadable_toJson (b : Bindings) : b.toJson.isReadable = true := by
  refine Json.fieldsReadable_iff.2 fun key j hj => ?_
  obtain ⟨e, -, heq⟩ := List.mem_map.1 hj
  cases heq
  rw [Value.tagged]
  cases h : e.2.payload? with
  | none => rfl
  | some payload =>
    have hpayload := Value.isReadable_payload h
    simp [Json.isReadable, Json.fieldsReadable, hpayload]

/-- Parameters are read back from their fields, in the order of their names. -/
theorem exists_ofFields {b : Bindings} (h : ∀ e ∈ b.entries, e.2.isFinite = true) :
    ∃ b' : Bindings, b'.entries.Perm b.entries
      ∧ ofFields ((Sorted.ofList b.entries).map taggedEntry) = .ok b' := by
  have hperm := Sorted.ofList_perm b.nodup
  have hread := mapM_readField fun e he => h e (hperm.mem_iff.1 he)
  refine ⟨.ofList (Sorted.ofList b.entries), ?_, ?_⟩
  · rwa [entries_ofList ((hperm.map Prod.fst).nodup_iff.2 b.nodup)]
  · rw [ofFields, hread]
    rfl

/-- Parameters of the same entries in another order have the same names and values. -/
theorem get?_of_perm {b b' : Bindings} (h : b.entries.Perm b'.entries) :
    b.names.Perm b'.names ∧ ∀ name, b.get? name = b'.get? name :=
  ⟨h.map Prod.fst, Keyed.lookup_perm h b.nodup⟩

end Bindings

/-! ### Texts -/

theorem Value.fits_payload {v : Value} {payload : Json} (hv : v.IsKept)
    (h : v.payload? = some payload) : Json.Fits 1 payload := by
  cases v with
  | null => cases h
  | bool b => cases h; exact .bool 1 b
  | int n =>
    cases h
    have hlt : n.toInt < UInt64.size := Int.lt_of_le_of_lt n.toInt_le (by decide)
    exact .integer (Json.isWideInteger_iff.2 ⟨n.minValue_le_toInt, hlt⟩)
  | float x =>
    cases h
    rw [Json.ofBinary64, if_pos (Json.isFinite_of_isKept hv)]
    exact .real hv
  | enum typeName constant =>
    cases h
    refine .object fun f hf => ?_
    simp only [List.mem_cons, List.not_mem_nil, or_false] at hf
    rcases hf with rfl | rfl <;> exact .string 0 _
  | bytes data =>
    cases h
    refine .array fun j hj => ?_
    obtain ⟨b, -, rfl⟩ := List.mem_map.1 hj
    have hlt : (b.toNat : Int) < UInt64.size :=
      Int.lt_trans (Int.ofNat_lt.2 b.toNat_lt) (by decide)
    have hle : Int64.minValue.toInt ≤ b.toNat := Int.le_trans (by decide) (Int.natCast_nonneg _)
    exact .integer (Json.isWideInteger_iff.2 ⟨hle, hlt⟩)
  | _ => cases h; exact .string 1 _

/-- The tagged form of a value is at most two objects deep, and nothing in it is lost. -/
theorem Value.fits_tagged {v : Value} (hv : v.IsKept) : Json.Fits 2 v.tagged := by
  have htype : Json.Fits 1 (.string v.typeName) := .string 1 _
  rw [tagged]
  cases h : v.payload? with
  | none => exact .object (by simpa using htype)
  | some payload => exact .object (by simpa using ⟨htype, fits_payload hv h⟩)

theorem Bindings.fits_toJson {b : Bindings} (h : ∀ e ∈ b.entries, e.2.IsKept) :
    Json.Fits 3 b.toJson := by
  refine .object fun f hf => ?_
  obtain ⟨e, he, rfl⟩ := List.mem_map.1 hf
  exact Value.fits_tagged (h e he)

namespace Console

/-- A file of parameters is read as plain data. -/
theorem readParams_of_text {s : Surroundings} {path text : String}
    (hfile : s.file path = .text text) :
    readParams s path = match Json.dataOfText? text with
      | some (.object fields) => (Bindings.ofFields fields).mapError .noValue
      | _ => .error (.notAnObject path) := by
  rw [readParams, hfile]
  rfl

/-- A file that holds an object is read field by field. -/
theorem readParams_of_file {s : Surroundings} {path text : String} {fields : List (String × Json)}
    (hfile : s.file path = .text text) (hfields : Json.dataOfText? text = some (.object fields)) :
    readParams s path = (Bindings.ofFields fields).mapError .noValue := by
  rw [readParams_of_text hfile, hfields]

variable {r : Rendered}

theorem fits_renderedJson (h : ∀ e ∈ r.bindings.entries, e.2.IsKept) :
    Json.Fits 4 (renderedJson r) := by
  refine .object fun f hf => ?_
  simp only [List.mem_cons, List.not_mem_nil, or_false] at hf
  rcases hf with rfl | rfl
  · exact .string 3 r.text
  · exact Bindings.fits_toJson h

/-- What is printed of a rendered query is read as its JSON form. -/
theorem ofText?_showRendered (h : ∀ e ∈ r.bindings.entries, e.2.IsKept) (colored : Bool)
    (q : Query) : Json.ofText? (showRendered colored .json q r) = some (renderedJson r) := by
  have hfits := fits_renderedJson h
  have hbreak : Json.Scans (['\n'] ++ []) [] := .blanks rfl .nil
  have hscans := (hfits.scans 0).append hbreak (Json.apart_newLine 0 [])
  simp only [List.append_nil] at hscans
  refine hfits.ofText?_of_scans (by decide) ?_
  rw [showRendered, line, String.toList_append]
  exact hscans

/-- A file with the parameters of a rendered query is read as these parameters, in the order of
their names. -/
theorem exists_readParams (h : ∀ e ∈ r.bindings.entries, e.2.isFinite = true) :
    ∃ b : Bindings, b.entries.Perm r.bindings.entries ∧ ∀ s path text, s.file path = .text text →
      Json.ofText? text = some r.bindings.toJson → readParams s path = .ok b := by
  obtain ⟨b, hperm, hfields⟩ := Bindings.exists_ofFields h
  refine ⟨b, hperm, fun s path text hfile htext => ?_⟩
  have hdata : Json.dataOfText? text = some r.bindings.toJson.settled := by
    rw [Json.dataOfText?, htext]
    exact if_pos r.bindings.isReadable_toJson
  rw [Bindings.settled_toJson] at hdata
  rw [readParams_of_file hfile hdata, hfields]
  rfl

/-- The parameters of a rendered query can be given to a query again: whatever text their object has,
it is read as parameters of the same names with the same values.  If the floating point numbers
among them are read back from their texts, then the text that is printed of the rendered query holds
the object, and a file with the text of the object is read in this way. -/
theorem readParams_rendered (r : Rendered) (hfinite : ∀ e ∈ r.bindings.entries, e.2.isFinite = true) :
    ∃ b : Bindings, b.names.Perm r.bindings.names ∧ (∀ name, b.get? name = r.bindings.get? name)
      ∧ (∀ s path text, s.file path = .text text → Json.ofText? text = some r.bindings.toJson →
          readParams s path = .ok b)
      ∧ ((∀ e ∈ r.bindings.entries, e.2.IsKept) →
          (∀ colored q, (Json.ofText? (showRendered colored .json q r)).bind (·.field? "params")
            = some r.bindings.toJson)
          ∧ ∀ s path level, s.file path = .text (r.bindings.toJson.prettyAt level) →
            readParams s path = .ok b) := by
  obtain ⟨b, hperm, hread⟩ := exists_readParams hfinite
  obtain ⟨hnames, hvalues⟩ := Bindings.get?_of_perm hperm
  refine ⟨b, hnames, hvalues, hread, fun hkept => ⟨fun colored q => ?_, fun s path level hfile => ?_⟩⟩
  · rw [ofText?_showRendered hkept]
    rfl
  · have htext : Json.ofText? (r.bindings.toJson.prettyAt level) = some r.bindings.toJson :=
      (Bindings.fits_toJson hkept).ofText?_prettyAt (by decide) level
    exact hread s path _ hfile htext

/-- One half. -/
def half : Binary64 := .ofScaled false 1 (-1) 1

/-- A rendered query with parameters of some types. -/
def recentOrders : Rendered :=
  ⟨"SELECT o FROM Order AS o WHERE o.share > :param1 AND o.status = :status",
    .ofList [("status", .enum "shop.Status" "OPEN"), ("param1", .float half)]⟩

theorem isKept_half : half.IsKept := by
  have htext : (Json.realText half).toList = ['0', '.', '5'] := by decide +kernel
  have hread : Decimal.Numeral.read? ['0', '.', '5']
      = some (⟨false, ['0'], some ['5'], none⟩, []) := by decide +kernel
  have hvalue : Decimal.Numeral.stepwise? ⟨false, ['0'], some ['5'], none⟩ = some half := by
    decide +kernel
  have hnumber : Json.ofNumeral ⟨false, ['0'], some ['5'], none⟩ = .real half := by
    rw [Json.ofNumeral, hvalue]
    rfl
  have hnumeral : Json.IsNumeral ['0', '.', '5'] := by
    refine ⟨List.cons_ne_nil _ _, ?_, rfl⟩
    rintro c ⟨⟩
    rfl
  refine Json.ofText?_of_scalar ?_
  rw [Json.compact, htext]
  exact hnumeral.scans (by rw [Json.number?_of_read hread, hnumber])

/-- A file with the parameters of a rendered query, one of them a floating point number. -/
theorem readParams_recentOrders :
    (∀ e ∈ recentOrders.bindings.entries, e.2.isFinite = true)
      ∧ ∃ b : Bindings, b.names.Perm ["status", "param1"] ∧ b.get? "param1" = some (.float half)
        ∧ ∀ s path, s.file path = .text recentOrders.bindings.toJson.pretty →
          readParams s path = .ok b := by
  have hfinite : ∀ e ∈ recentOrders.bindings.entries, e.2.isFinite = true := by decide +kernel
  have hkept : ∀ e ∈ recentOrders.bindings.entries, e.2.IsKept := by
    have hentries : recentOrders.bindings.entries
        = [("status", .enum "shop.Status" "OPEN"), ("param1", .float half)] := by decide +kernel
    rw [hentries]
    simp [Value.IsKept, isKept_half]
  obtain ⟨b, hnames, hvalues, -, hread⟩ := readParams_rendered recentOrders hfinite
  refine ⟨hfinite, b, ?_, ?_, fun s path => (hread hkept).2 s path 0⟩
  · exact hnames
  · rw [hvalues]
    decide +kernel

end Console
end PersistenceQuery
