import PersistenceQuery.Proofs.Json.Scanned

/-!
# Reading back JSON text

A JSON value that is written on lines is read back from its text: the text is cut into the tokens
of the value, and these are put together again, as long as the arrays and objects do not lie too
deep inside one another.  A floating point number is read back if its own text is, since it is
found in steps that round.

## Main definitions

* `Json.tokens` — the tokens of a value.
* `Binary64.IsKept` — a number is read back from its text.
* `Json.Fits` — a value of numbers that are read back, and how deep it is.

## Main results

* `Json.Fits.scans` — the text of a value is cut into its tokens.
* `Json.Fits.takes` — a reader puts the tokens of a value together to the value.
* `Json.Fits.ofText?_prettyAt` — a value is read back from its text.
-/

namespace PersistenceQuery

/-- The number is read back from its JSON text. -/
def Binary64.IsKept (x : Binary64) : Prop := Json.ofText? (Json.real x).compact = some (.real x)

namespace Json

open Token

/-! ### Tokens of values -/

/-- Tokens with commas between them. -/
def listed : List (List Token) → List Token
  | [] => []
  | ts :: tss => ts ++ tss.flatMap (.comma :: ·)

mutual

/-- The tokens of a value. -/
def tokens : Json → List Token
  | .array items => .openArray :: (listed (tokensOfItems items) ++ [.closeArray])
  | .object fields => .openObject :: (listed (tokensOfFields fields) ++ [.closeObject])
  | .string s => [.text (some s)]
  | .null => [.scalar .null]
  | .bool b => [.scalar (.bool b)]
  | .integer n => [.scalar (.integer n)]
  | .real x => [.scalar (.real x)]
  | .unreadable => [.scalar .unreadable]

/-- The tokens of each item. -/
def tokensOfItems : List Json → List (List Token)
  | [] => []
  | j :: js => tokens j :: tokensOfItems js

/-- The tokens of each field. -/
def tokensOfFields : List (String × Json) → List (List Token)
  | [] => []
  | (k, j) :: fields => (.text (some k) :: .colon :: tokens j) :: tokensOfFields fields

end

/-- The value is at most `n` arrays and objects deep, nothing in it is unreadable, and its numbers
are those that are read back. -/
inductive Fits : Nat → Json → Prop
  | null (n : Nat) : Fits n .null
  | bool (n : Nat) (b : Bool) : Fits n (.bool b)
  | integer {n : Nat} {z : Int} (h : isWideInteger z = true) : Fits n (.integer z)
  | real {n : Nat} {x : Binary64} (h : x.IsKept) : Fits n (.real x)
  | string (n : Nat) (s : String) : Fits n (.string s)
  | array {n : Nat} {items : List Json} (h : ∀ j ∈ items, Fits n j) : Fits (n + 1) (.array items)
  | object {n : Nat} {fields : List (String × Json)} (h : ∀ f ∈ fields, Fits n f.2) :
    Fits (n + 1) (.object fields)

theorem tokensOfItems_eq_map (items : List Json) : tokensOfItems items = items.map tokens := by
  induction items with
  | nil => rfl
  | cons j items ih => rw [tokensOfItems, ih, List.map_cons]

theorem tokensOfFields_eq_map (fields : List (String × Json)) :
    tokensOfFields fields = fields.map fun f => .text (some f.1) :: .colon :: f.2.tokens := by
  induction fields with
  | nil => rfl
  | cons f fields ih => rw [tokensOfFields, ih, List.map_cons]

theorem prettyItems_eq_map (items : List Json) (level : Nat) :
    prettyItems items level = items.map (prettyAt · level) := by
  induction items with
  | nil => rfl
  | cons j items ih => rw [prettyItems, ih, List.map_cons]

theorem prettyFields_eq_map (fields : List (String × Json)) (level : Nat) :
    prettyFields fields level
      = fields.map fun f => stringText f.1 ++ ": " ++ prettyAt f.2 level := by
  induction fields with
  | nil => rfl
  | cons f fields ih => rw [prettyFields, ih, List.map_cons]

/-! ### Cutting texts -/

theorem isMark_openArray : IsMark '[' .openArray := ⟨rfl, rfl, rfl, fun _ => rfl⟩

theorem isMark_closeArray : IsMark ']' .closeArray := ⟨rfl, rfl, rfl, fun _ => rfl⟩

theorem isMark_openObject : IsMark '\x7b' .openObject := ⟨rfl, rfl, rfl, fun _ => rfl⟩

theorem isMark_closeObject : IsMark '\x7d' .closeObject := ⟨rfl, rfl, rfl, fun _ => rfl⟩

theorem isMark_colon : IsMark ':' .colon := ⟨rfl, rfl, rfl, fun _ => rfl⟩

theorem isMark_comma : IsMark ',' .comma := ⟨rfl, rfl, rfl, fun _ => rfl⟩

theorem intercalate_cons {α : Type} (separator x : List α) (xs : List (List α)) :
    separator.intercalate (x :: xs) = x ++ xs.flatMap (separator ++ ·) := by
  induction xs generalizing x with
  | nil => simp
  | cons y xs ih => rw [List.intercalate_cons_cons, ih, List.flatMap_cons]; simp

theorem toList_newLine (level : Nat) :
    (newLine level).toList = '\n' :: List.replicate (2 * level) ' ' := by
  simp [newLine]

theorem blank_newLine (level : Nat) : (newLine level).toList.all Token.isBlank = true := by
  have hspaces : (List.replicate (2 * level) ' ').all Token.isBlank = true :=
    List.all_eq_true.2 fun c hc => List.eq_of_mem_replicate hc ▸ rfl
  rw [toList_newLine, List.all_cons, hspaces]
  rfl

theorem apart_newLine (level : Nat) (cs : List Char) : Apart ((newLine level).toList ++ cs) := by
  rw [toList_newLine]
  rintro c ⟨⟩
  exact ⟨rfl, rfl⟩

/-- What leads to an entry behind another. -/
def entryLead (level : Nat) : List Char := ',' :: (newLine level).toList

/-- Entries behind another, each with a comma in front and on a line of its own. -/
theorem scans_entries (level : Nat) {entries : List (List Char)} {tss : List (List Token)}
    (h : List.Forall₂ Scans entries tss) :
    Scans (entries.flatMap (entryLead level ++ ·)) (tss.flatMap (.comma :: ·))
      ∧ Apart (entries.flatMap (entryLead level ++ ·)) := by
  induction h with
  | nil => exact ⟨.nil, apart_nil⟩
  | cons hentry _ ih =>
    rw [List.flatMap_cons, List.flatMap_cons]
    refine ⟨.append ?_ ih.1 ih.2, isMark_comma.apart _⟩
    exact .mark isMark_comma (.blanks (blank_newLine level) hentry)

/-- Entries between two marks. -/
theorem scans_block (level : Nat) {opening closing : Char} {first last : Token}
    (hopening : IsMark opening first) (hclosing : IsMark closing last) {entries : List String}
    {tss : List (List Token)} (h : List.Forall₂ Scans (entries.map String.toList) tss) :
    Scans (block level (String.singleton opening) (String.singleton closing) entries).toList
      (first :: (listed tss ++ [last])) := by
  have hlast : Scans [closing] [last] := .mark hclosing .nil
  cases entries with
  | nil =>
    cases h
    rw [block, String.toList_append, String.toList_singleton, String.toList_singleton]
    exact .mark hopening hlast
  | cons entry entries =>
    cases h with
    | cons hentry hentries =>
      obtain ⟨hmore, hapart⟩ := scans_entries (level + 1) hentries
      have hall := hentry.append hmore hapart
      have hclosed := hall.append (.blanks (blank_newLine level) hlast) (apart_newLine level _)
      have htext : (block level (String.singleton opening) (String.singleton closing)
          (entry :: entries)).toList = opening :: ((newLine (level + 1)).toList ++
            ((entry.toList ++ (entries.map String.toList).flatMap (entryLead (level + 1) ++ ·))
              ++ ((newLine level).toList ++ [closing]))) := by
        have hlead : ("," ++ newLine (level + 1)).toList = entryLead (level + 1) := by
          rw [String.toList_append]
          rfl
        simp [block, String.toList_intercalate, intercalate_cons, hlead]
      rw [htext]
      exact .mark hopening (.blanks (blank_newLine _) hclosed)

/-- A text of one token is read as the value of the token. -/
theorem ofText?_of_scalar {s : String} {j : Json} (h : Scans s.toList [.scalar j]) :
    ofText? s = some j := by
  have htokens := h [] apart_nil
  rw [List.append_nil, ofChars?] at htokens
  rw [ofText?, htokens]
  rfl

/-- What is no number is written as `null`, and that is not read back as a number. -/
theorem isFinite_of_isKept {x : Binary64} (h : x.IsKept) : x.isFinite = true := by
  by_contra hx
  have hnull : (Json.real x).compact = "null" := if_neg hx
  rw [Binary64.IsKept, hnull, ofText?_of_scalar scans_null] at h
  cases h

/-- A number that is read back from its text is one token there. -/
theorem scans_realText {x : Binary64} (h : x.IsKept) :
    Scans (realText x).toList [.scalar (.real x)] := by
  have hfinite := isFinite_of_isKept h
  have hnumeral : IsNumeral (realText x).toList := by
    rw [realText, if_pos hfinite, String.toList_ofList]
    exact isNumeral_write hfinite
  have htokens := hnumeral.ofChars?_append apart_nil
  rw [List.append_nil] at htokens
  rw [Binary64.IsKept, compact, ofText?, htokens] at h
  cases hnumber : number? (realText x).toList with
  | none =>
    rw [hnumber] at h
    cases h
  | some t =>
    obtain ⟨j, rfl⟩ := exists_of_number? hnumber
    have hscans := hnumeral.scans hnumber
    rw [hnumber, ofChars?] at h
    cases h
    exact hscans

/-- The text of a value is cut into its tokens. -/
theorem Fits.scans {n : Nat} {j : Json} (h : Fits n j) (level : Nat) :
    Scans (prettyAt j level).toList j.tokens := by
  induction h generalizing level with
  | null n => exact scans_null
  | bool n b => exact scans_bool b
  | @integer n z h =>
    have hz := scans_toString z
    rw [ofNumeral_integerNumeral, if_pos h] at hz
    exact hz
  | real h => exact scans_realText h
  | string n s => exact scans_stringText s
  | @array n items h ih =>
    have hitems : List.Forall₂ Scans ((prettyItems items (level + 1)).map String.toList)
        (tokensOfItems items) := by
      rw [prettyItems_eq_map, tokensOfItems_eq_map, List.map_map, List.forall₂_map_left_iff,
        List.forall₂_map_right_iff]
      exact List.forall₂_same.2 fun j hj => ih j hj (level + 1)
    exact scans_block level isMark_openArray isMark_closeArray hitems
  | @object n fields h ih =>
    have hfields : List.Forall₂ Scans ((prettyFields fields (level + 1)).map String.toList)
        (tokensOfFields fields) := by
      rw [prettyFields_eq_map, tokensOfFields_eq_map, List.map_map, List.forall₂_map_left_iff,
        List.forall₂_map_right_iff]
      refine List.forall₂_same.2 fun f hf => ?_
      have hvalue : Scans (':' :: ([' '] ++ (prettyAt f.2 (level + 1)).toList))
          (.colon :: f.2.tokens) := .mark isMark_colon (.blanks rfl (ih f hf (level + 1)))
      have hfield := (scans_stringText f.1).append hvalue (isMark_colon.apart _)
      simpa using hfield
    exact scans_block level isMark_openObject isMark_closeObject hfields

/-! ### Putting tokens together -/

/-- The reader waits for a value. -/
def AwaitsValue : Expected → Prop
  | .value | .item => True
  | _ => False

/-- A value at these places begins with its first token, unless that closes an array. -/
theorem step_of_awaitsValue {e : Expected} (he : AwaitsValue e) {t : Token} (ht : t ≠ .closeArray)
    (stack : List Frame) : Reader.step ⟨stack, e⟩ t = Reader.beginValue stack t := by
  cases e with
  | value => rfl
  | item => cases t <;> first | rfl | exact absurd rfl ht
  | _ => exact he.elim

/-- From `r` the tokens lead to `r'`, and on from there. -/
def Reader.Leads (r : Reader) (ts : List Token) (r' : Reader) : Prop :=
  ∀ us, (ts ++ us).foldlM Reader.step r = us.foldlM Reader.step r'

namespace Reader.Leads

variable {r r₁ r₂ : Reader} {ts us : List Token}

theorem nil (r : Reader) : r.Leads [] r := fun _ => rfl

theorem append (hts : r.Leads ts r₁) (hus : r₁.Leads us r₂) : r.Leads (ts ++ us) r₂ := by
  intro vs
  rw [List.append_assoc, hts, hus]

theorem cons {t : Token} (ht : r.step t = some r₁) (hts : r₁.Leads ts r₂) :
    r.Leads (t :: ts) r₂ := by
  intro us
  rw [List.cons_append, List.foldlM_cons, ht]
  exact hts us

theorem single {t : Token} (ht : r.step t = some r₁) : r.Leads [t] r₁ := .cons ht (.nil r₁)

end Reader.Leads

/-- A frame that does not lie too deep is closed to its value. -/
theorem close_of_lt {frame : Frame} {stack : List Frame} (h : stack.length < maxDepth) :
    Reader.close (frame :: stack) = some (Reader.complete stack frame.close) := by
  rw [Reader.close, if_pos h]

/-- Inside the frames of a stack the tokens of a value lead to the value. -/
def Reader.Takes (stack : List Frame) (j : Json) : Prop :=
  ∀ e, AwaitsValue e → (Reader.mk stack e).Leads j.tokens (.complete stack j)

/-- A token that is a value for itself. -/
theorem takes_of_single {stack : List Frame} {j : Json} {t : Token} (hj : j.tokens = [t])
    (ht : t ≠ .closeArray) (hbegin : Reader.beginValue stack t = some (.complete stack j)) :
    Reader.Takes stack j := by
  intro e he
  rw [hj]
  exact .single ((step_of_awaitsValue he ht stack).trans hbegin)

section Containers
variable {stack : List Frame} (hstack : stack.length < maxDepth)
include hstack

/-- The items behind others, up to the end of the array. -/
theorem leads_items {items : List Json} (h : ∀ j ∈ items, ∀ frame, Reader.Takes (frame :: stack) j)
    (before : List Json) :
    (Reader.mk (.array before :: stack) .separator).Leads
      ((items.map tokens).flatMap (.comma :: ·) ++ [.closeArray])
      (.complete stack (.array (before.reverse ++ items))) := by
  induction items generalizing before with
  | nil =>
    rw [List.append_nil]
    exact .single (close_of_lt hstack)
  | cons j items ih =>
    rw [List.forall_mem_cons] at h
    rw [List.map_cons, List.flatMap_cons, List.append_assoc]
    have hitem := h.1 (.array before) .value trivial
    have hrest := ih h.2 (j :: before)
    rw [List.reverse_cons, List.append_assoc] at hrest
    exact .append (.cons rfl hitem) hrest

/-- The fields behind others, up to the end of the object. -/
theorem leads_fields {fields : List (String × Json)}
    (h : ∀ f ∈ fields, ∀ frame, Reader.Takes (frame :: stack) f.2) (before : List (String × Json)) :
    (Reader.mk (.object before none true :: stack) .separator).Leads
      ((tokensOfFields fields).flatMap (.comma :: ·) ++ [.closeObject])
      (.complete stack (.object (before.reverse ++ fields))) := by
  induction fields generalizing before with
  | nil =>
    rw [List.append_nil]
    exact .single (close_of_lt hstack)
  | cons f fields ih =>
    rw [List.forall_mem_cons] at h
    rw [tokensOfFields, List.flatMap_cons, List.append_assoc]
    have hvalue := h.1 (.object before f.1 true) .value trivial
    have hrest := ih h.2 (f :: before)
    rw [List.reverse_cons, List.append_assoc] at hrest
    exact .append (.cons rfl (.cons rfl (.cons rfl hvalue))) hrest

theorem takes_array {items : List Json}
    (h : ∀ j ∈ items, ∀ frame, Reader.Takes (frame :: stack) j) :
    Reader.Takes stack (.array items) := by
  intro e he
  rw [tokens, tokensOfItems_eq_map]
  refine .cons (step_of_awaitsValue he Token.noConfusion stack) ?_
  cases items with
  | nil => exact .single (close_of_lt hstack)
  | cons j items =>
    rw [List.forall_mem_cons] at h
    rw [List.map_cons, listed, List.append_assoc]
    exact .append (h.1 (.array []) .item trivial) (leads_items hstack h.2 [j])

theorem takes_object {fields : List (String × Json)}
    (h : ∀ f ∈ fields, ∀ frame, Reader.Takes (frame :: stack) f.2) :
    Reader.Takes stack (.object fields) := by
  intro e he
  rw [tokens]
  refine .cons (step_of_awaitsValue he Token.noConfusion stack) ?_
  cases fields with
  | nil => exact .single (close_of_lt hstack)
  | cons f fields =>
    rw [List.forall_mem_cons] at h
    rw [tokensOfFields, listed, List.append_assoc]
    have hvalue := h.1 (.object [] f.1 true) .value trivial
    exact .append (.cons rfl (.cons rfl hvalue)) (leads_fields hstack h.2 [f])

end Containers

/-- The tokens of a value lead to the value, if it does not lie too deep. -/
theorem Fits.takes {n : Nat} {j : Json} (h : Fits n j) {stack : List Frame}
    (hdepth : stack.length + n ≤ maxDepth) : Reader.Takes stack j := by
  induction h generalizing stack with
  | null n => exact takes_of_single rfl Token.noConfusion rfl
  | bool n b => exact takes_of_single rfl Token.noConfusion rfl
  | integer h => exact takes_of_single rfl Token.noConfusion rfl
  | real h => exact takes_of_single rfl Token.noConfusion rfl
  | string n s => exact takes_of_single rfl Token.noConfusion rfl
  | array h ih =>
    exact takes_array (by omega) fun j hj frame => ih j hj (by rw [List.length_cons]; omega)
  | object h ih =>
    exact takes_object (by omega) fun f hf frame => ih f hf (by rw [List.length_cons]; omega)

/-! ### Reading back -/

/-- A text that is cut into the tokens of a value is read as the value. -/
theorem Fits.ofText?_of_scans {n : Nat} {j : Json} (h : Fits n j) (hn : n ≤ maxDepth) {s : String}
    (hs : Scans s.toList j.tokens) : ofText? s = some j := by
  have htokens := hs [] apart_nil
  rw [List.append_nil, ofChars?, Option.map_some] at htokens
  have htakes : Reader.Takes [] j := h.takes (by simpa using hn)
  have hread : (j.tokens ++ []).foldlM Reader.step Reader.start = some ⟨[], .done j⟩ :=
    htakes .value trivial []
  rw [ofText?, htokens, Option.bind_eq_bind, Option.bind_some, hread]
  rfl

/-- A value is read back from its text. -/
theorem Fits.ofText?_prettyAt {n : Nat} {j : Json} (h : Fits n j) (hn : n ≤ maxDepth)
    (level : Nat) : ofText? (prettyAt j level) = some j :=
  h.ofText?_of_scans hn (h.scans level)

end Json
end PersistenceQuery
