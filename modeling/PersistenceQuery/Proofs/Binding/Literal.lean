import PersistenceQuery.Binding.Literal
import PersistenceQuery.Proofs.Binding.FreshName
import PersistenceQuery.Proofs.Query.Names
import PersistenceQuery.Proofs.Text.Firm

/-!
# Literals as they are read

A literal closes the quotes that it opens, and whoever reads it finds no placeholder in it: colons
stand in it between quotes only.  Its ends are those of a token that stands apart from others.

## Main definitions

* `Value.HasLiteral v text` — the literals, by the form that they have.

## Main results

* `Value.literal_eq_ok_iff` — a value is written as the literal that it has.
* `Value.quiet_literal` — the literal of a value closes its quotes and holds no placeholders.
* `Value.isFirm_literal` — the literal of a value is firm if the names in it are solid.
* `isFirm_pathText`, `isFirm_placeholder` — paths of solid names and placeholders are firm.
-/

namespace PersistenceQuery

open Text

/-- A text that closes its quotes and holds no placeholders. -/
structure Quiet (cs : List Char) : Prop where
  isOutside : (Lexer.between.after cs).isOutside = true
  placeholders_eq : (Lexer.between.read cs).filterMap Lexeme.placeholder? = []

namespace Quiet

theorem of_plain {cs : List Char} (h : cs.all isPlainChar = true) : Quiet cs :=
  ⟨Lexer.isOutside_after rfl (Lexer.quote_notMem_of_plain h), Lexer.placeholders_read rfl h⟩

theorem quote (s : String) : Quiet (quote s).toList := by
  obtain ⟨hafter, hread⟩ := Lexer.read_quote s
  refine ⟨?_, ?_⟩
  · rw [hafter]
    rfl
  · rw [hread]
    rfl

theorem append {as bs : List Char} (has : Quiet as) (hbs : Quiet bs)
    (h : (Lexer.between.after as).Apart bs) : Quiet (as ++ bs) := by
  refine ⟨?_, ?_⟩
  · rw [Lexer.after_append]
    by_cases hne : bs = []
    · rw [hne]
      exact has.isOutside
    · rw [Lexer.after_of_apart h hne]
      exact hbs.isOutside
  · rw [Lexer.read_append h, List.filterMap_append, has.placeholders_eq, hbs.placeholders_eq]
    rfl

end Quiet

/-! ### Numbers -/

/-- A character of the numerals that numbers are written as, infinite ones included. -/
def isNumeralChar (c : Char) : Bool := c.isDigit || "-.NaNinf".toList.contains c

theorem numeral_decimal (n : Nat) : (decimal n).all isNumeralChar = true :=
  List.all_eq_true.2 fun c hc => by
    have hdigit : c.isDigit = true := Nat.isDigit_of_mem_toDigits (by decide) (by decide) hc
    rw [isNumeralChar, hdigit, Bool.true_or]

/-- An integer is written as its digits behind its sign. -/
theorem toList_toString_int (n : Int) :
    (toString n).toList = (if decide (n < 0) then ['-'] else []) ++ decimal n.natAbs := by
  cases n with
  | ofNat m =>
    rw [decide_eq_false (show ¬ Int.ofNat m < 0 from Int.not_lt.2 (Int.natCast_nonneg m))]
    exact toList_toString m
  | negSucc m =>
    rw [decide_eq_true (Int.negSucc_lt_zero m)]
    show ("-" ++ toString (m + 1)).toList = '-' :: decimal (m + 1)
    rw [String.toList_append, toList_toString]
    rfl

theorem numeral_toString (n : Int) : (toString n).toList.all isNumeralChar = true := by
  rw [toList_toString_int, List.all_append, numeral_decimal]
  cases decide (n < 0) <;> rfl

/-- A decimal with all its places is written in digits and a point. -/
theorem all_positionalText {p : Char → Bool} (hdigit : ∀ c, c.isDigit = true → p c = true)
    (hpoint : p '.' = true) (pointZero : Bool) (d : Decimal) :
    (Decimal.positionalText pointZero d).all p = true := by
  have hzeros : ∀ n, (List.replicate n '0').all p = true := fun n =>
    List.all_eq_true.2 fun c hc => (List.eq_of_mem_replicate hc) ▸ hdigit '0' rfl
  have hdigits : (decimal d.digits).all p = true := List.all_eq_true.2 fun c hc =>
    hdigit c (Nat.isDigit_of_mem_toDigits (by decide) (by decide) hc)
  unfold Decimal.positionalText
  split
  · rw [List.all_append, List.all_append, hdigits, hzeros]
    cases pointZero <;> simp [hpoint, hdigit '0' rfl]
  · have hpadded : ∀ n, (List.replicate n '0' ++ decimal d.digits).all p = true :=
      fun n => by rw [List.all_append, hzeros, hdigits]; rfl
    have hsub : ∀ {as bs : List Char}, as.Sublist bs → bs.all p = true →
        as.all p = true := fun hs hall =>
      List.all_eq_true.2 fun c hc => List.all_eq_true.1 hall c (hs.subset hc)
    simp only [List.all_append, List.all_cons]
    rw [hsub (List.take_sublist _ _) (hpadded _), hsub (List.drop_sublist _ _) (hpadded _), hpoint]
    rfl

theorem numeral_positionalText (pointZero : Bool) (d : Decimal) :
    (Decimal.positionalText pointZero d).all isNumeralChar = true :=
  all_positionalText (fun c hc => by rw [isNumeralChar, hc, Bool.true_or]) rfl pointZero d

theorem numeral_write (x : Binary64) :
    (Decimal.Layout.plain.write x).all isNumeralChar = true := by
  have hunsigned : (if x.isNaN then "NaN".toList
      else if !x.isFinite then "inf".toList
      else Decimal.positionalText false (x.shortest .up)).all isNumeralChar = true := by
    split
    · decide
    · split
      · decide
      · exact numeral_positionalText _ _
  simp only [Decimal.Layout.write, Decimal.Layout.plain, if_true]
  split
  · rw [List.all_cons, hunsigned]
    rfl
  · exact hunsigned

theorem numeral_floatLiteral (x : Binary64) : (floatLiteral x).all isNumeralChar = true := by
  simp only [floatLiteral]
  split
  · exact numeral_write x
  · rw [List.all_append, numeral_write]
    rfl

theorem point_mem_floatLiteral (x : Binary64) : '.' ∈ floatLiteral x := by
  rw [floatLiteral]
  split
  · next h => simpa using h
  · simp

theorem isPathChar_of_isNumeralChar {c : Char} (h : isNumeralChar c = true) :
    isPathChar c = true ∨ c = '-' := by
  rw [isNumeralChar, Bool.or_eq_true] at h
  rcases h with hdigit | hmem
  · left
    rw [isPathChar, isNameChar, Char.isAlphanum, hdigit, Bool.or_true, Bool.true_or, Bool.true_or]
  · simp only [List.contains_eq_mem, decide_eq_true_eq] at hmem
    have hcases : c = '-' ∨ c = '.' ∨ c = 'N' ∨ c = 'a' ∨ c = 'i' ∨ c = 'n' ∨ c = 'f' := by
      have : "-.NaNinf".toList = ['-', '.', 'N', 'a', 'N', 'i', 'n', 'f'] := rfl
      simp only [this, List.mem_cons, List.not_mem_nil, or_false] at hmem
      tauto
    rcases hcases with rfl | rfl | rfl | rfl | rfl | rfl | rfl <;> decide

/-- A numeral holds neither quotes nor colons. -/
theorem plain_of_numeral {cs : List Char} (h : cs.all isNumeralChar = true) :
    cs.all isPlainChar = true :=
  List.all_eq_true.2 fun c hc => by
    have hc := List.all_eq_true.1 h c hc
    have hquote : c ≠ '\'' := fun heq => absurd (heq ▸ hc) (by decide)
    have hcolon : c ≠ ':' := fun heq => absurd (heq ▸ hc) (by decide)
    simp [isPlainChar, hquote, hcolon]

/-- A numeral holds neither blanks nor delimiters. -/
theorem solid_of_numeral {cs : List Char} (h : cs.all isNumeralChar = true) :
    cs.all isSolidChar = true :=
  List.all_eq_true.2 fun c hc => by
    rcases isPathChar_of_isNumeralChar (List.all_eq_true.1 h c hc) with hpath | rfl
    · exact isSolidChar_of_isPathChar hpath
    · decide

/-! ### Names -/

/-- What holds of points and of the characters between them holds of all characters. -/
theorem all_of_cut {p : Char → Bool} (hdot : p '.' = true) {cs : List Char}
    (h : ∀ s ∈ Path.cut cs, s.all p = true) : cs.all p = true := by
  induction cs with
  | nil => rfl
  | cons c cs ih =>
    rw [Path.cut] at h
    split at h
    · next hc =>
      rw [List.all_cons, hc, hdot, ih fun s hs => h s (List.mem_cons_of_mem _ hs)]
      rfl
    · split at h
      · next hcut =>
        have hc := h [c] List.mem_cons_self
        rw [List.all_cons, Bool.and_eq_true] at hc
        rw [List.all_cons, hc.1, ih fun s hs => by rw [hcut] at hs; cases hs]
        rfl
      · next s rest hcut =>
        have hc := h (c :: s) List.mem_cons_self
        rw [List.all_cons, Bool.and_eq_true] at hc
        rw [List.all_cons, hc.1, ih fun t ht => ?_]
        · rfl
        · rw [hcut] at ht
          rcases List.mem_cons.1 ht with rfl | ht
          · exact hc.2
          · exact h t (List.mem_cons_of_mem _ ht)

/-- The characters of an enumeration constant are those of its names. -/
theorem all_of_enumNames {p : Char → Bool} (hdot : p '.' = true) {typeName constant : String}
    (h : ∀ s ∈ (Value.enum typeName constant).names, s.toList.all p = true) :
    (typeName ++ "." ++ constant).toList.all p = true := by
  have htype : typeName.toList.all p = true := all_of_cut hdot fun cs hcs => by
    have h := h (String.ofList cs) (List.mem_append_left _ (List.mem_map.2 ⟨cs, hcs, rfl⟩))
    rwa [String.toList_ofList] at h
  have hconstant : constant.toList.all p = true := h _ (List.mem_append_right _ (by simp))
  have hpoint : ".".toList = ['.'] := rfl
  rw [String.toList_append, String.toList_append, List.all_append, List.all_append, htype,
    hconstant, hpoint, List.all_cons, hdot]
  rfl

/-- What holds of points and of the characters of names holds of those of a path. -/
theorem all_joined {p : Char → Bool} (hdot : p '.' = true) {ss : List (List Char)}
    (h : ∀ s ∈ ss, s.all p = true) : (Path.joined ss).all p = true := by
  induction ss with
  | nil => rfl
  | cons s ss ih =>
    have hs := h s List.mem_cons_self
    have hrest := ih fun t ht => h t (List.mem_cons_of_mem _ ht)
    cases ss with
    | nil => exact hs
    | cons t ss =>
      rw [Path.joined, List.all_append, hs, List.all_cons, hdot, hrest]
      · rfl
      · exact List.cons_ne_nil _ _

theorem all_pathText {p : Char → Bool} (hdot : p '.' = true) {path : Path}
    (h : ∀ s ∈ path.segments, s.toList.all p = true) : path.text.toList.all p = true := by
  rw [Path.text, String.toList_ofList]
  refine all_joined hdot fun cs hcs => ?_
  obtain ⟨s, hs, rfl⟩ := List.mem_map.1 hcs
  exact h s hs

/-! ### Forms -/

/-- The values that are written behind a marker, each with its marker and its text. -/
inductive Value.Marked : Value → String → String → Prop
  | date (d : Date) : Marked (.date d) "d" d.text
  | time {t : Clock} (ht : t.isWholeSecond = true) : Marked (.time t) "t" t.text
  | timestamp (t : Timestamp) : Marked (.timestamp t) "ts" t.text

/-- The values that have a literal, each with its literal. -/
inductive Value.HasLiteral : Value → String → Prop
  | null : HasLiteral .null "NULL"
  | bool (b : Bool) : HasLiteral (.bool b) (if b then "TRUE" else "FALSE")
  | int (n : Int64) : HasLiteral (.int n) (toString n.toInt)
  | float {x : Binary64} (hx : x.isFinite = true) :
    HasLiteral (.float x) (String.ofList (floatLiteral x))
  | string (s : String) : HasLiteral (.string s) (quote s)
  | marked {v : Value} {marker text : String} (hv : v.Marked marker text) :
    HasLiteral v (markedLiteral marker text)
  | enum {typeName constant : String} (htype : typeName ≠ "") (hconstant : constant ≠ "") :
    HasLiteral (.enum typeName constant) (typeName ++ "." ++ constant)

theorem Value.HasLiteral.literal_eq {v : Value} {text : String} (h : v.HasLiteral text) :
    v.literal = .ok text := by
  cases h with
  | float hx => exact if_pos hx
  | marked hv =>
    cases hv with
    | time ht => exact if_pos ht
    | _ => rfl
  | enum htype hconstant => exact if_neg (by simp [htype, hconstant])
  | _ => rfl

/-- A value is written as the literal that it has. -/
theorem Value.literal_eq_ok_iff {v : Value} {text : String} :
    v.literal = .ok text ↔ v.HasLiteral text := by
  refine ⟨fun h => ?_, HasLiteral.literal_eq⟩
  cases v with
  | null =>
    cases h
    exact .null
  | bool b =>
    cases h
    exact .bool b
  | int n =>
    cases h
    exact .int n
  | float x =>
    rw [literal] at h
    split at h
    · next hx =>
      cases h
      exact .float hx
    · cases h
  | string s =>
    cases h
    exact .string s
  | date d =>
    cases h
    exact .marked (.date d)
  | time t =>
    rw [literal] at h
    split at h
    · next ht =>
      cases h
      exact .marked (.time ht)
    · cases h
  | timestamp t =>
    cases h
    exact .marked (.timestamp t)
  | enum typeName constant =>
    rw [literal] at h
    split at h
    · cases h
    · next hne =>
      cases h
      rw [Bool.or_eq_true, not_or, String.isEmpty_iff, String.isEmpty_iff] at hne
      exact .enum hne.1 hne.2
  | bytes data => cases h

/-! ### Literals -/

theorem quiet_markedLiteral {marker : String} (hmarker : isPlain marker = true) (text : String) :
    Quiet (markedLiteral marker text).toList := by
  rw [isPlain] at hmarker
  have hopen : Quiet ('{' :: marker.toList ++ [' ']) :=
    .of_plain (by rw [List.all_append, List.all_cons, hmarker]; rfl)
  have hbetween : Lexer.between.after ('{' :: marker.toList ++ [' ']) = .between := by
    have hout : (Lexer.between.after ('{' :: marker.toList)).isOutside = true :=
      Lexer.isOutside_after rfl (Lexer.quote_notMem_of_plain hmarker)
    rw [Lexer.after_append]
    exact Lexer.step_of_isDelimiter hout rfl
  have hclosed : (Lexer.closed text.toList).Apart ['}'] := by
    rintro c ⟨⟩
    rfl
  have hquoted := hopen.append (.quote text) (by rw [hbetween]; exact Lexer.apart_between _)
  have hbrace : Quiet ['}'] := .of_plain rfl
  have h := hquoted.append hbrace (by
    rw [Lexer.after_append, hbetween, (Lexer.read_quote text).1]
    exact hclosed)
  simpa [markedLiteral] using h

/-- The literal of a value closes its quotes and holds no placeholders. -/
theorem Value.quiet_literal {v : Value} {text : String} (h : v.literal = .ok text)
    (hn : ∀ s ∈ v.names, isPlain s = true) : Quiet text.toList := by
  cases literal_eq_ok_iff.1 h with
  | null => exact .of_plain (by decide)
  | bool b => cases b <;> exact .of_plain (by decide)
  | int n => exact .of_plain (plain_of_numeral (numeral_toString _))
  | float _ =>
    rw [String.toList_ofList]
    exact .of_plain (plain_of_numeral (numeral_floatLiteral _))
  | string s => exact .quote s
  | marked hv => cases hv <;> exact quiet_markedLiteral (by decide) _
  | enum _ _ => exact .of_plain (all_of_enumNames rfl hn)

theorem decimal_ne_nil (n : Nat) : decimal n ≠ [] := by
  intro h
  have hvalue := valueOf_decimal n
  rw [h] at hvalue
  obtain rfl : n = 0 := hvalue.symm
  exact absurd h (by decide)

theorem toString_int_ne_empty (n : Int) : toString n ≠ "" := by
  intro h
  have hnil := congrArg String.toList h
  rw [toList_toString_int] at hnil
  exact decimal_ne_nil _ (List.append_eq_nil_iff.1 hnil).2

theorem isFirm_markedLiteral {marker : String} (text : String) :
    isFirm (markedLiteral marker text) = true :=
  isFirm_iff.2 ⟨startsFirm_append (startsFirm_append (startsFirm_append (startsFirm_append
    (by decide) _) _) _) _, endsFirm_append _ (by decide)⟩

/-- The literal of a value is firm if the names in it are solid. -/
theorem Value.isFirm_literal {v : Value} {text : String} (h : v.literal = .ok text)
    (hn : ∀ s ∈ v.names, isSolid s = true) : isFirm text = true := by
  cases literal_eq_ok_iff.1 h with
  | null => decide
  | bool b => cases b <;> decide
  | int n =>
    exact isFirm_of_isSolid (solid_of_numeral (numeral_toString _)) (toString_int_ne_empty _)
  | @float x _ =>
    have hsolid : isSolid (String.ofList (floatLiteral x)) = true := by
      rw [isSolid, String.toList_ofList]
      exact solid_of_numeral (numeral_floatLiteral x)
    refine isFirm_of_isSolid hsolid fun hempty => ?_
    exact List.ne_nil_of_mem (point_mem_floatLiteral x) (String.ofList_eq_empty_iff.1 hempty)
  | string s => exact isFirm_quote s
  | marked _ => exact isFirm_markedLiteral _
  | enum _ _ =>
    refine isFirm_of_isSolid (all_of_enumNames rfl hn) fun hempty => ?_
    have hpoint := congrArg (fun s => s.toList.length) hempty
    simp [String.toList_append] at hpoint

/-- A path of solid names is firm. -/
theorem isFirm_pathText {p : Path} (hne : p.segments ≠ [])
    (h : ∀ s ∈ p.segments, s ≠ "" ∧ isSolid s = true) : isFirm p.text = true := by
  refine isFirm_of_isSolid (all_pathText rfl fun s hs => (h s hs).2) ?_
  obtain ⟨s, rest, hp⟩ := List.exists_cons_of_ne_nil hne
  have hs : s ≠ "" := (h s (by rw [hp]; exact List.mem_cons_self)).1
  intro hempty
  rw [Path.text, hp, List.map_cons, String.ofList_eq_empty_iff] at hempty
  cases rest with
  | nil => exact hs (String.toList_eq_nil_iff.1 hempty)
  | cons t rest => exact absurd hempty (by simp [Path.joined])

/-- A placeholder with a proper name is firm. -/
theorem isFirm_placeholder {s : String} (h : isParameterName s = true) :
    isFirm (placeholder s) = true := by
  have hsolid : isSolid (placeholder s) = true := by
    rw [isSolid, placeholder, String.toList_append, List.all_append, Bool.and_eq_true]
    refine ⟨by decide, List.all_eq_true.2 fun c hc => ?_⟩
    have hc := List.all_eq_true.1 (isNameChar_of_isParameterName h) c hc
    exact isSolidChar_of_isPathChar (Lexer.isPathChar_of_isNameChar hc)
  refine isFirm_of_isSolid hsolid fun hempty => ?_
  have hlength := congrArg (fun s => s.toList.length) hempty
  simp [placeholder, String.toList_append] at hlength

end PersistenceQuery
