import PersistenceQuery.Proofs.Exchange.Parameters

/-!
# Integers among given parameters

A parameter can be given as a plain JSON number.  An integer of 64 bits with sign is kept as it is.
One outside of them is not refused: it becomes a floating point number, which need not be equal to
it.

## Main definitions

* `IsInt64` — an integer of 64 bits with sign.

## Main results

* `Value.ofGiven?_integer` — what an integer is taken for.
* `Bindings.get?_of_ofFields` — a parameter has the value that its field is taken for.
* `Console.readParams_entry` — a parameter in a file is its last entry there.
* `Console.readParams_integer_iff` — an integer in a file of parameters is kept if and only if it
  has 64 bits.
-/

namespace PersistenceQuery

/-- The integers of 64 bits with sign. -/
def IsInt64 (z : Int) : Prop := Int64.minValue.toInt ≤ z ∧ z ≤ Int64.maxValue.toInt

/-- They are the values of `Int64`. -/
theorem isInt64_iff {z : Int} : IsInt64 z ↔ ∃ n : Int64, n.toInt = z := by
  constructor
  · rintro ⟨hmin, hmax⟩
    exact ⟨.ofInt z, Int64.toInt_ofInt_of_le hmin (Int.lt_of_le_of_lt hmax (by decide))⟩
  · rintro ⟨n, rfl⟩
    exact ⟨n.minValue_le_toInt, n.toInt_le⟩

/-! ### Values -/

/-- All of them are kept as integers when JSON is read. -/
theorem IsInt64.isWideInteger {z : Int} (h : IsInt64 z) : Json.isWideInteger z = true := by
  have hlt : z < UInt64.size := Int.lt_of_le_of_lt h.2 (by decide)
  exact Json.isWideInteger_iff.2 ⟨h.1, hlt⟩

/-- What the digits of an integer are read as. -/
theorem Json.ofText?_toString (z : Int) :
    Json.ofText? (toString z) = some (Json.ofNumeral (Json.integerNumeral z)) :=
  Json.ofText?_of_scalar (Json.scans_toString z)

namespace Value

/-- An integer of 64 bits is taken for itself. -/
theorem ofGiven?_int64 (n : Int64) :
    ofGiven? (Json.ofNumeral (Json.integerNumeral n.toInt)) = some (.int n) := by
  have hwide := (isInt64_iff.2 ⟨n, rfl⟩).isWideInteger
  have hint : (Json.integer n.toInt).int64? = some n := reads_int64 n _ (.refl _)
  rw [Json.ofNumeral_integerNumeral, if_pos hwide, ofGiven?, ofPlain?, hint]
  rfl

/-- Any other integer is taken for a floating point number, if for anything. -/
theorem exists_float_of_not_isInt64 {z : Int} (hz : ¬ IsInt64 z) {v : Value}
    (h : ofGiven? (Json.ofNumeral (Json.integerNumeral z)) = some v) : ∃ x, v = .float x := by
  rw [Json.ofNumeral_integerNumeral] at h
  split at h
  · -- an integer with 64 bits and no sign, which JSON keeps
    have hint : (Json.integer z).int64? = none := if_neg hz
    have htagged : ofTagged? (.integer z) = none := rfl
    rw [ofGiven?, ofPlain?, hint, htagged, Option.or_none] at h
    obtain ⟨x, -, rfl⟩ := Option.map_eq_some_iff.1 h
    exact ⟨x, rfl⟩
  · -- any other, which is a floating point number from the start
    split at h
    · cases h
      exact ⟨_, rfl⟩
    · cases h

/-- An integer is taken for itself if it has 64 bits, and for no integer otherwise. -/
theorem ofGiven?_integer {z : Int} {v : Value}
    (h : ofGiven? (Json.ofNumeral (Json.integerNumeral z)) = some v) :
    (∃ n : Int64, v = .int n ∧ n.toInt = z) ∨ (¬ IsInt64 z ∧ ∃ x, v = .float x) := by
  by_cases hz : IsInt64 z
  · obtain ⟨n, rfl⟩ := isInt64_iff.1 hz
    rw [ofGiven?_int64] at h
    cases h
    exact .inl ⟨n, rfl, rfl⟩
  · exact .inr ⟨hz, exists_float_of_not_isInt64 hz h⟩

end Value

/-! ### Fields -/

section Fields

variable {fields : List (String × Json)} {name : String} {j : Json}

/-- The first field decides, and then the fields behind it. -/
theorem mapM_readField_cons (key : String) (i : Json) :
    ((key, i) :: fields).mapM readField = match Value.ofGiven? i with
      | some v => (fields.mapM readField).map ((key, v) :: ·)
      | none => .error key := by
  rw [List.mapM_cons, readField]
  cases Value.ofGiven? i with
  | none => rfl
  | some v => cases fields.mapM readField <;> rfl

/-- Fields that are read keep their names, and each has the value that it is taken for. -/
theorem exists_of_mapM_readField {entries : List (String × Value)}
    (h : fields.mapM readField = .ok entries) :
    entries.map Prod.fst = fields.map Prod.fst
      ∧ ∀ f ∈ fields, ∃ v, (f.1, v) ∈ entries ∧ Value.ofGiven? f.2 = some v := by
  induction fields generalizing entries with
  | nil =>
    cases h
    exact ⟨rfl, List.forall_mem_nil _⟩
  | cons f fields ih =>
    obtain ⟨key, i⟩ := f
    rw [mapM_readField_cons] at h
    split at h
    · next v hv =>
      cases hrest : fields.mapM readField with
      | error cause =>
        rw [hrest] at h
        cases h
      | ok rest =>
        rw [hrest] at h
        cases h
        obtain ⟨hnames, hvalues⟩ := ih hrest
        refine ⟨congrArg (key :: ·) hnames,
          List.forall_mem_cons.2 ⟨⟨v, List.mem_cons_self, hv⟩, ?_⟩⟩
        intro f hf
        obtain ⟨w, hw, hread⟩ := hvalues f hf
        exact ⟨w, List.mem_cons_of_mem _ hw, hread⟩
    · cases h

/-- Fields are refused for the name of one that is taken for no value. -/
theorem exists_of_mapM_readField_error (h : fields.mapM readField = .error name) :
    ∃ j, (name, j) ∈ fields ∧ Value.ofGiven? j = none := by
  induction fields with
  | nil => cases h
  | cons f fields ih =>
    obtain ⟨key, i⟩ := f
    rw [mapM_readField_cons] at h
    split at h
    · cases hrest : fields.mapM readField with
      | error cause =>
        rw [hrest] at h
        cases h
        obtain ⟨j, hj, hnone⟩ := ih hrest
        exact ⟨j, List.mem_cons_of_mem _ hj, hnone⟩
      | ok rest =>
        rw [hrest] at h
        cases h
    · next hi =>
      cases h
      exact ⟨i, List.mem_cons_self, hi⟩

variable (hnodup : (fields.map Prod.fst).Nodup) (hj : (name, j) ∈ fields)

include hnodup hj

/-- A parameter has the value that its field is taken for. -/
theorem Bindings.get?_of_ofFields {b : Bindings} (h : ofFields fields = .ok b) :
    ∃ v, b.get? name = some v ∧ Value.ofGiven? j = some v := by
  rw [ofFields] at h
  cases hread : fields.mapM readField with
  | error cause =>
    rw [hread] at h
    cases h
  | ok entries =>
    rw [hread] at h
    cases h
    obtain ⟨hnames, hvalues⟩ := exists_of_mapM_readField hread
    obtain ⟨v, hv, hgiven⟩ := hvalues _ hj
    have hnodup' : (entries.map Prod.fst).Nodup := by rwa [hnames]
    refine ⟨v, ?_, hgiven⟩
    show (Bindings.ofList entries).get? name = some v
    rw [get?, entries_ofList hnodup']
    exact (Keyed.lookup_eq_some_iff hnodup').2 hv

/-- A field that is taken for a value is not what fields are refused for. -/
theorem Bindings.ofFields_ne_error {v : Value} (hv : Value.ofGiven? j = some v) :
    ofFields fields ≠ .error name := by
  intro h
  rw [ofFields] at h
  cases hread : fields.mapM readField with
  | error cause =>
    rw [hread] at h
    cases h
    obtain ⟨i, hi, hnone⟩ := exists_of_mapM_readField_error hread
    rw [Json.eq_of_mem hnodup hi hj, hv] at hnone
    cases hnone
  | ok entries =>
    rw [hread] at h
    cases h

end Fields

/-! ### Files -/

namespace Json

/-- The fields of an object of plain data have distinct names, and among them is the last field of
every name. -/
theorem settled_object_mem {raw : List (String × Json)} {name : String} {j : Json}
    (h : raw.reverse.lookup name = some j) :
    ∃ fields, (Json.object raw).settled = .object fields ∧ (fields.map Prod.fst).Nodup
      ∧ (name, j.settled) ∈ fields := by
  have hnodup := Sorted.nodup_ofList raw
  rw [← Sorted.lookup_ofList] at h
  have hmem : (name, j) ∈ Sorted.ofList raw := (Keyed.lookup_eq_some_iff hnodup).1 h
  refine ⟨(Sorted.ofList raw).map fun f => (f.1, f.2.settled), ?_, ?_, List.mem_map_of_mem hmem⟩
  · rw [settled, settle, settledFields_eq_map, Sorted.ofList_map]
  · rw [List.map_map]
    exact hnodup

theorem settled_ofNumeral (n : Decimal.Numeral) : (ofNumeral n).settled = ofNumeral n := by
  simp only [ofNumeral]
  generalize (if n.negative then -(n.mantissa : Int) else n.mantissa) = signed
  split
  · rfl
  · cases n.stepwise? <;> rfl

end Json

namespace Console

variable {s : Surroundings} {path text name : String} {raw : List (String × Json)} {j : Json}

/-- A parameter in a file is what the last entry of its name is taken for, and the file is not refused
for it if that is a value. -/
theorem readParams_entry (hfile : s.file path = .text text)
    (htext : Json.ofText? text = some (.object raw)) (hentry : raw.reverse.lookup name = some j) :
    (∀ b, readParams s path = .ok b →
        ∃ v, b.get? name = some v ∧ Value.ofGiven? j.settled = some v)
      ∧ ∀ v, Value.ofGiven? j.settled = some v → readParams s path ≠ .error (.noValue name) := by
  obtain ⟨fields, hfields, hnodup, hmem⟩ := Json.settled_object_mem hentry
  have hdata : Json.dataOfText? text
      = if (Json.object raw).isReadable then some (.object fields) else none := by
    rw [Json.dataOfText?, htext, ← hfields]
  by_cases hreadable : (Json.object raw).isReadable = true
  · rw [if_pos hreadable] at hdata
    rw [readParams_of_file hfile hdata]
    cases h : Bindings.ofFields fields with
    | ok b =>
      refine ⟨?_, fun v hv heq => (by cases heq)⟩
      rintro _ ⟨⟩
      exact Bindings.get?_of_ofFields hnodup hmem h
    | error cause =>
      refine ⟨fun b hb => (by cases hb), ?_⟩
      rintro v hv ⟨⟩
      exact Bindings.ofFields_ne_error hnodup hmem hv h
  · -- a number that is not kept at all is nothing of plain data
    rw [if_neg hreadable] at hdata
    rw [readParams_of_text hfile, hdata]
    exact ⟨fun b hb => (by cases hb), fun v hv heq => (by cases heq)⟩

/-- An integer in a file of parameters is kept if it has 64 bits with sign, and then the file is not
refused for it.  If it has not, the parameter is a floating point number. -/
theorem readParams_integer_iff {z : Int} (hfile : s.file path = .text text)
    (htext : Json.ofText? text = some (.object raw)) (hentry : raw.reverse.lookup name = some j)
    (hz : Json.ofText? (toString z) = some j) :
    (∀ b, readParams s path = .ok b →
        ((∃ n : Int64, b.get? name = some (.int n) ∧ n.toInt = z
            ∧ (Value.int n).plain = .integer z) ↔ IsInt64 z)
          ∧ (¬ IsInt64 z → ∃ x, b.get? name = some (.float x)))
      ∧ (IsInt64 z → readParams s path ≠ .error (.noValue name)) := by
  obtain ⟨hread, hrefused⟩ := readParams_entry hfile htext hentry
  obtain rfl : Json.ofNumeral (Json.integerNumeral z) = j :=
    Option.some.inj ((Json.ofText?_toString z).symm.trans hz)
  rw [Json.settled_ofNumeral] at hread hrefused
  refine ⟨fun b hb => ?_, fun hint => ?_⟩
  · obtain ⟨v, hv, hgiven⟩ := hread b hb
    rw [hv]
    rcases Value.ofGiven?_integer hgiven with ⟨n, rfl, rfl⟩ | ⟨hwide, x, rfl⟩
    · have hint : IsInt64 n.toInt := isInt64_iff.2 ⟨n, rfl⟩
      exact ⟨⟨fun _ => hint, fun _ => ⟨n, rfl, rfl, rfl⟩⟩, fun hnot => absurd hint hnot⟩
    · refine ⟨⟨?_, fun hint => absurd hint hwide⟩, fun _ => ⟨x, rfl⟩⟩
      rintro ⟨n, hn, -⟩
      cases hn
  · obtain ⟨n, rfl⟩ := isInt64_iff.1 hint
    exact hrefused _ (Value.ofGiven?_int64 n)

/-- A file of parameters that gives the number of an order. -/
def orderFile (z : Int) : Json := .object [("number", .integer z)]

/-- Surroundings with such a file and nothing else. -/
def besideOrderFile (z : Int) : Surroundings :=
  ⟨fun path => if path = "params.json" then .text (orderFile z).pretty else .absent, "", [], false⟩

theorem ofText?_orderFile {z : Int} (hz : Json.isWideInteger z = true) :
    Json.ofText? (orderFile z).pretty = some (orderFile z) := by
  have hfits : Json.Fits 1 (orderFile z) := .object (by simpa using Json.Fits.integer hz)
  exact hfits.ofText?_prettyAt (by decide) 0

/-- The file is read if the number is taken for a value. -/
theorem readParams_orderFile {z : Int} (hz : Json.isWideInteger z = true) {v : Value}
    (hv : Value.ofGiven? (.integer z) = some v) :
    readParams (besideOrderFile z) "params.json" = .ok (.ofList [("number", v)]) := by
  have hdata : Json.dataOfText? (orderFile z).pretty = some (.object [("number", .integer z)]) := by
    rw [Json.dataOfText?, ofText?_orderFile hz]
    rfl
  rw [readParams_of_file rfl hdata, Bindings.ofFields, mapM_readField_cons, hv]
  rfl

/-- The number of an order in a file of parameters. -/
theorem readParams_smallNumber :
    ∃ b, readParams (besideOrderFile 42) "params.json" = .ok b
      ∧ ∃ n : Int64, b.get? "number" = some (.int n) ∧ n.toInt = 42 := by
  have hwide : Json.isWideInteger 42 = true := by decide
  have hdigits : Json.ofText? (toString (42 : Int)) = some (.integer 42) := by
    rw [Json.ofText?_toString, Json.ofNumeral_integerNumeral, if_pos hwide]
  have hvalue : Value.ofGiven? (.integer 42) = some (.int 42) := rfl
  have hread := readParams_orderFile hwide hvalue
  have hfile : (besideOrderFile 42).file "params.json" = .text (orderFile 42).pretty := rfl
  have hentry : [("number", Json.integer 42)].reverse.lookup "number" = some (.integer 42) := rfl
  have hall := readParams_integer_iff hfile (ofText?_orderFile hwide) hentry hdigits
  obtain ⟨n, hn, heq, -⟩ := (hall.1 _ hread).1.2 (by unfold IsInt64; decide)
  exact ⟨_, hread, n, hn, heq⟩

/-- The floating point number `2 ^ 63`. -/
def twoTo63 : Binary64 := .ofScaled false 1 63 1

/-- A number with 64 bits and no sign is neither kept nor refused: it is rounded to `2 ^ 63`. -/
theorem readParams_wideNumber :
    Json.ofText? (toString (9223372036854775809 : Int)) = some (.integer 9223372036854775809)
      ∧ ∃ b, readParams (besideOrderFile 9223372036854775809) "params.json" = .ok b
        ∧ b.get? "number" = some (.float twoTo63)
        ∧ Binary64.ofInt 9223372036854775808 = some twoTo63
        ∧ (Value.float twoTo63).plain ≠ .integer 9223372036854775809 := by
  have hwide : Json.isWideInteger 9223372036854775809 = true := by decide
  have hvalue : Value.ofGiven? (.integer 9223372036854775809) = some (.float twoTo63) := by
    decide +kernel
  refine ⟨?_, _, readParams_orderFile hwide hvalue, rfl, by decide +kernel, ?_⟩
  · rw [Json.ofText?_toString, Json.ofNumeral_integerNumeral, if_pos hwide]
  · intro h
    rw [Value.plain, Json.ofBinary64] at h
    split at h <;> cases h

end Console
end PersistenceQuery
