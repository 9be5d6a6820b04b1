import PersistenceQuery.Proofs.Calendar.Reading
import PersistenceQuery.Proofs.Exchange.Reordered

/-!
# Reading back values

The tagged form of a value is read back as that value, whatever the order of its fields: dates and
times through their texts, binary data byte by byte, and a payload that stands before its type
because nothing in it is unreadable.  Only a floating point number without a JSON number is lost.

## Main definitions

* `Value.isFinite` — the value is no infinity and not the value that is no number.

## Main results

* `Value.reads_tagged` — the tagged form of a finite value is read back.
-/

namespace PersistenceQuery

open Json

namespace Value

/-- The value is not a floating point number that JSON has no number for. -/
def isFinite : Value → Bool
  | float x => x.isFinite
  | _ => true

/-! ### Payloads -/

theorem reads_int64 (n : Int64) : Reads int64? (.integer n.toInt) n := by
  intro i hi
  cases hi
  have hrange : Int64.minValue.toInt ≤ n.toInt ∧ n.toInt ≤ Int64.maxValue.toInt :=
    ⟨n.minValue_le_toInt, n.toInt_le⟩
  rw [int64?, if_pos hrange, Int64.ofInt_toInt]

theorem reads_byte (b : UInt8) : Reads byte? (.integer b.toNat) b := by
  intro i hi
  cases hi
  have hrange : (0 : Int) ≤ (b.toNat : Int) ∧ (b.toNat : Int) < 256 := by
    have := b.toNat_lt
    omega
  rw [byte?, if_pos hrange, Int.toNat_natCast, UInt8.ofNat_toNat]

theorem reads_bytes (data : List UInt8) :
    Reads (list? byte?) (.array (data.map fun b => .integer b.toNat)) data :=
  .list fun b _ => reads_byte b

theorem reads_float {x : Binary64} (hx : x.isFinite = true) :
    Reads float? (.ofBinary64 x) x := by
  intro i hi
  rw [ofBinary64, if_pos hx] at hi
  cases hi
  rfl

/-- A text that a reader gives a value for. -/
theorem reads_text {α : Type} {ofText? : String → Option α} {s : String} {a : α}
    (h : ofText? s = some a) : Reads (fun i => i.text?.bind ofText?) (.string s) a := by
  intro i hi
  rw [hi.eq_string]
  exact h

/-- The names of a type and of its constant, in either order. -/
theorem reads_enum (typeName constant : String) :
    Reads (ofPayload? "enum")
      (.object [("type_name", .string typeName), ("constant", .string constant)])
      (enum typeName constant) := by
  intro i hi
  have hnodup : ([("type_name", Json.string typeName), ("constant", .string constant)].map
      Prod.fst).Nodup := by simp
  obtain ⟨fields, rfl, honce, hfound⟩ := hi.exists_lookup hnodup
  obtain ⟨v, hv, hname⟩ := hfound "type_name" (.string typeName) (by simp)
  obtain ⟨w, hw, hconstant⟩ := hfound "constant" (.string constant) (by simp)
  obtain rfl := hname.eq_string
  obtain rfl := hconstant.eq_string
  simp [ofPayload?, honce, hv, hw, text?]

/-- The payload of a value is read as a value of its type. -/
theorem reads_payload {v : Value} {payload : Json} (hv : v.isFinite = true)
    (h : v.payload? = some payload) : Reads (ofPayload? v.typeName) payload v := by
  cases v with
  | null => cases h
  | bool b => cases h; exact (Reads.flag b).map bool
  | int n => cases h; exact (reads_int64 n).map int
  | float x => cases h; exact (reads_float hv).map float
  | string s => cases h; exact (Reads.text s).map string
  | date d => cases h; exact (reads_text d.ofText?_text).map date
  | time t => cases h; exact (reads_text t.ofText?_text).map time
  | timestamp t => cases h; exact (reads_text t.ofText?_exchangeText).map timestamp
  | enum typeName constant => cases h; exact reads_enum typeName constant
  | bytes data => cases h; exact (reads_bytes data).map bytes

theorem isReadable_payload {v : Value} {payload : Json} (h : v.payload? = some payload) :
    payload.isReadable = true := by
  cases v with
  | null => cases h
  | float x =>
    cases h
    rw [ofBinary64]
    split <;> rfl
  | bytes data =>
    cases h
    refine areReadable_iff.2 fun j hj => ?_
    obtain ⟨b, -, rfl⟩ := List.mem_map.1 hj
    rfl
  | _ =>
    cases h
    rfl

/-! ### Types and payloads -/

/-- A value that is there is not taken for one that is absent, even the value `null`. -/
theorem tagged_ne_null (v : Value) : v.tagged ≠ .null := by
  intro h
  cases h

/-- A type with a payload is read as its value, whichever of the two stands first. -/
theorem reads_typed {v : Value} {payload : Json} (hv : v.isFinite = true)
    (h : v.payload? = some payload) :
    Reads ofTagged? (.object [("type", .string v.typeName), ("value", payload)]) v := by
  intro i hi
  have hnodup : ([("type", Json.string v.typeName), ("value", payload)].map
      Prod.fst).Nodup := by simp
  obtain ⟨fields, rfl, honce, hfound⟩ := hi.exists_lookup hnodup
  obtain ⟨t, ht, htype⟩ := hfound "type" (.string v.typeName) (by simp)
  obtain ⟨w, hw, hpayload⟩ := hfound "value" payload (by simp)
  obtain rfl := htype.eq_string
  -- a payload in front of its type is skipped first, and read only if that was possible
  have hearly : isReadableEarly fields w = true := by
    rw [isReadableEarly, hpayload.isReadable _ (isReadable_payload h), Bool.or_true]
  simp [ofTagged?, honce, ht, hw, hearly, choice?, reads_payload hv h w hpayload]

/-- The tagged form of a value is read as the value, unless JSON has no number for it. -/
theorem reads_tagged {v : Value} (hv : v.isFinite = true) : Reads ofTagged? v.tagged v := by
  cases h : v.payload? with
  | some payload =>
    rw [tagged, h]
    exact reads_typed hv h
  | none =>
    obtain rfl : v = null := by cases v <;> first | rfl | cases h
    intro i hi
    obtain ⟨t, rfl, ht⟩ := hi.exists_single
    rw [ht.eq_string]
    rfl

end Value
end PersistenceQuery
