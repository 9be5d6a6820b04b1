import PersistenceQuery.Proofs.Rendering.Clear

/-!
# What a literal stands for

The literal of a value shows the type of the value by its first characters and by the points in
it, and among the values of one type it determines the value: a quoted text is read back, and so
are dates and times, the digits of an integer, the shortest decimal of a floating point number and
the name of a type in front of its constant.  So no two values have the same literal, unless one of
them is an enumeration constant with names that look like something else.

## Main definitions

* `literalType` — the type that a literal shows.
* `Value.IsApart` — an enumeration constant does not look like a value of another type.

## Main results

* `Value.literalType_literal` — the literal of a value shows its type.
* `Value.eq_of_literal` — values with one literal are equal.
-/

namespace PersistenceQuery

open Text

/-! ### The type of a literal -/

/-- A character that a number begins with. -/
def isNumberHead (c : Char) : Bool := isFigure c || c == '-'

/-- The type that a literal shows: a number by its first character and a point in it, a text and a
temporal value by the characters in front, and what is left by a point in it. -/
def literalType (cs : List Char) : String :=
  if cs.head?.any isNumberHead then if cs.contains '.' then "float" else "int"
  else if cs.head? = some '\'' then "string"
  else if cs.head? = some '\x7b' then
    if cs[1]? = some 'd' then "date" else if cs[2]? = some ' ' then "time" else "timestamp"
  else if cs.contains '.' then "enum"
  else if cs = "NULL".toList then "null"
  else "bool"

/-- The type name of an enumeration constant begins with no character that a number, a text or a
temporal value begins with, as one that begins with a letter or an underscore does not, and there
is no point in the constant. -/
def Value.IsApart : Value → Prop
  | enum typeName constant =>
    (∀ c ∈ typeName.toList.head?, isNumberHead c = false ∧ c ≠ '\'' ∧ c ≠ '\x7b')
      ∧ '.' ∉ constant.toList
  | _ => True

instance (v : Value) : Decidable v.IsApart :=
  match v with
  | .enum typeName constant =>
    -- the first character of the name is looked at, not all characters that there are
    haveI : Decidable (∀ c ∈ typeName.toList.head?,
        isNumberHead c = false ∧ c ≠ '\'' ∧ c ≠ '\x7b') := Option.decidableForallMem _
    inferInstanceAs (Decidable
      ((∀ c ∈ typeName.toList.head?, isNumberHead c = false ∧ c ≠ '\'' ∧ c ≠ '\x7b')
        ∧ '.' ∉ constant.toList))
  | .null | .bool _ | .int _ | .float _ | .string _ | .date _ | .time _ | .timestamp _
  | .bytes _ => inferInstanceAs (Decidable True)

theorem Signed.any_head? {negative : Bool} {cs : List Char} (h : Signed negative cs)
    (hne : cs ≠ []) : cs.head?.any isNumberHead = true := by
  obtain ⟨figures, hfigures, rfl⟩ := h
  cases negative with
  | true => rfl
  | false =>
    cases figures with
    | nil => exact absurd rfl hne
    | cons c figures =>
      rw [List.all_cons, Bool.and_eq_true] at hfigures
      show isNumberHead c = true
      rw [isNumberHead, hfigures.1, Bool.true_or]

theorem point_notMem_toString (n : Int) : '.' ∉ (toString n).toList := by
  have hdigits := Decimal.point_notMem_of_digits (Decimal.digits_decimal n.natAbs)
  rw [toList_toString_int, List.mem_append, not_or]
  refine ⟨?_, hdigits⟩
  split <;> decide

theorem toList_markedLiteral (marker text : String) :
    (markedLiteral marker text).toList
      = '\x7b' :: (marker.toList ++ ' ' :: ((quote text).toList ++ ['\x7d'])) := by
  simp [markedLiteral]

/-- The literal of a value shows its type. -/
theorem Value.literalType_literal {v : Value} {text : String} (h : v.literal = .ok text)
    (hv : v.IsApart) : literalType text.toList = v.typeName := by
  cases literal_eq_ok_iff.1 h with
  | null => decide
  | bool b => cases b <;> decide
  | int n =>
    have hne : (toString n.toInt).toList ≠ [] := fun hnil =>
      toString_int_ne_empty _ (String.toList_eq_nil_iff.1 hnil)
    have hpoint : (toString n.toInt).toList.contains '.' = false := by
      simpa using point_notMem_toString n.toInt
    rw [literalType, if_pos ((signed_toString _).any_head? hne), hpoint]
    rfl
  | @float x hfinite =>
    have hpoint := point_mem_floatLiteral x
    have hhead := (signed_floatLiteral hfinite).any_head? (List.ne_nil_of_mem hpoint)
    rw [String.toList_ofList, literalType, if_pos hhead, if_pos (by simpa using hpoint)]
    rfl
  | string s =>
    rw [toList_quote]
    rfl
  | marked hmarked =>
    rw [toList_markedLiteral]
    cases hmarked <;> rfl
  | @enum typeName constant htype _ =>
    obtain ⟨c, cs, hcs⟩ := List.exists_cons_of_ne_nil (mt String.toList_eq_nil_iff.1 htype)
    obtain ⟨hnumber, hquote, hbrace⟩ := hv.1 c (by rw [hcs]; rfl)
    have htext : (typeName ++ "." ++ constant).toList = c :: (cs ++ '.' :: constant.toList) := by
      simp [String.toList_append, hcs]
    rw [htext, literalType]
    simp [hnumber, hquote, hbrace]
    rfl

/-! ### The values of one type -/

theorem quote_injective : Function.Injective quote := by
  intro s t h
  have hread := (Lexer.read_quote s).2
  rw [h, (Lexer.read_quote t).2, List.singleton_inj] at hread
  exact (Lexeme.quoted.inj hread).symm

/-- Behind one marker the quoted text is what counts. -/
theorem markedLiteral_inj {marker s t : String}
    (h : markedLiteral marker s = markedLiteral marker t) : s = t := by
  have hlist := congrArg String.toList h
  rw [toList_markedLiteral, toList_markedLiteral, List.cons_inj_right, List.append_cancel_left_eq,
    List.cons_inj_right, List.append_cancel_right_eq] at hlist
  exact quote_injective (String.toList_injective hlist)

theorem toString_int_injective {m n : Int} (h : toString m = toString n) : m = n := by
  have hlist := congrArg String.toList h
  have hminus : ∀ k : Int, '-' ∉ decimal k.natAbs := fun k =>
    Decimal.minus_notMem_of_digits (Decimal.digits_decimal _)
  rw [toList_toString_int, toList_toString_int] at hlist
  obtain ⟨hsign, hdigits⟩ := minus_append_inj (hminus m) (hminus n) hlist
  have hvalue := congrArg valueOf hdigits
  rw [valueOf_decimal, valueOf_decimal] at hvalue
  rw [decide_eq_decide] at hsign
  omega

theorem Date.text_injective : Function.Injective Date.text := by
  intro d e h
  have hread := d.ofText?_text
  rw [h, e.ofText?_text] at hread
  exact (Option.some.inj hread).symm

theorem Clock.text_injective : Function.Injective Clock.text := by
  intro t u h
  have hread := t.ofText?_text
  rw [h, u.ofText?_text] at hread
  exact (Option.some.inj hread).symm

/-- The date ends where it is read to its end. -/
theorem Timestamp.text_injective : Function.Injective Timestamp.text := by
  rintro ⟨d, t⟩ ⟨e, u⟩ h
  have hchars : d.chars ++ ' ' :: t.chars = e.chars ++ ' ' :: u.chars := String.ofList_injective h
  have hdate := d.read?_chars (' ' :: t.chars)
  rw [hchars, e.read?_chars, Option.some.injEq, Prod.mk.injEq] at hdate
  obtain rfl : e = d := hdate.1
  have htime : t.chars = u.chars := by simpa using hchars
  obtain rfl : t = u := Clock.text_injective (congrArg String.ofList htime)
  rfl

/-- A point with none behind it parts a text in one way. -/
theorem append_point_inj {as bs cs ds : List Char} (hbs : '.' ∉ bs) (hds : '.' ∉ ds)
    (h : as ++ '.' :: bs = cs ++ '.' :: ds) : as = cs ∧ bs = ds := by
  -- a longer text in front would leave the point of the other behind its own
  rcases List.append_eq_append_iff.1 h with ⟨es, rfl, hes⟩ | ⟨es, rfl, hes⟩
  · cases es with
    | nil =>
      rw [List.nil_append, List.cons_inj_right] at hes
      exact ⟨(List.append_nil _).symm, hes⟩
    | cons e es =>
      have hbehind : bs = es ++ '.' :: ds := (List.cons.inj hes).2
      rw [hbehind] at hbs
      exact absurd (List.mem_append_right _ List.mem_cons_self) hbs
  · cases es with
    | nil =>
      rw [List.nil_append, List.cons_inj_right] at hes
      exact ⟨List.append_nil _, hes.symm⟩
    | cons e es =>
      have hbehind : ds = es ++ '.' :: bs := (List.cons.inj hes).2
      rw [hbehind] at hds
      exact absurd (List.mem_append_right _ List.mem_cons_self) hds

/-! ### Values -/

/-- No two values have the same literal: the literal shows the type, and among the values of the
type it is that of one only. -/
theorem Value.eq_of_literal {v w : Value} {text : String} (hv : v.IsApart) (hw : w.IsApart)
    (h : v.literal = .ok text) (h' : w.literal = .ok text) : v = w := by
  have htype : v.typeName = w.typeName := by
    rw [← literalType_literal h hv, ← literalType_literal h' hw]
  have hliteral : v.literal = w.literal := h.trans h'.symm
  cases v with
  | null =>
    cases w with
    | null => rfl
    | _ => simp [typeName] at htype
  | bool b =>
    cases w with
    | bool c =>
      have hwords : ∀ b c : Bool, (bool b).literal = (bool c).literal → b = c := by decide
      rw [hwords b c hliteral]
    | _ => simp [typeName] at htype
  | int n =>
    cases w with
    | int m =>
      have htext : toString n.toInt = toString m.toInt := Except.ok.inj hliteral
      rw [Int64.toInt_inj.1 (toString_int_injective htext)]
    | _ => simp [typeName] at htype
  | float x =>
    cases w with
    | float y =>
      rw [literal] at h h'
      split at h
      · next hx =>
        split at h'
        · next hy =>
          have htext : floatLiteral x = floatLiteral y :=
            String.ofList_injective ((Except.ok.inj h).trans (Except.ok.inj h').symm)
          rw [Binary64.eq_of_floatLiteral hx hy htext]
        · cases h'
      · cases h
    | _ => simp [typeName] at htype
  | string s =>
    cases w with
    | string t => rw [quote_injective (Except.ok.inj hliteral)]
    | _ => simp [typeName] at htype
  | date d =>
    cases w with
    | date e => rw [Date.text_injective (markedLiteral_inj (Except.ok.inj hliteral))]
    | _ => simp [typeName] at htype
  | time t =>
    cases w with
    | time u =>
      rw [literal] at h h'
      split at h
      · split at h'
        · have htext := (Except.ok.inj h).trans (Except.ok.inj h').symm
          rw [Clock.text_injective (markedLiteral_inj htext)]
        · cases h'
      · cases h
    | _ => simp [typeName] at htype
  | timestamp t =>
    cases w with
    | timestamp u => rw [Timestamp.text_injective (markedLiteral_inj (Except.ok.inj hliteral))]
    | _ => simp [typeName] at htype
  | enum typeName constant =>
    cases w with
    | enum typeName' constant' =>
      rw [literal] at h h'
      split at h
      · cases h
      · split at h'
        · cases h'
        · have htext := (Except.ok.inj h).trans (Except.ok.inj h').symm
          have hlist := congrArg String.toList htext
          simp only [String.toList_append, List.append_assoc] at hlist
          obtain ⟨htypes, hconstants⟩ := append_point_inj hv.2 hw.2 hlist
          rw [String.toList_injective htypes, String.toList_injective hconstants]
    | _ => simp [Value.typeName] at htype
  | bytes data => cases h

/-- A constant of a type that is given by its path, and of the same type given by its text; and
half of one, once by its scale and once as a quotient. -/
theorem storeOpen_half_eq_of_literal :
    ((Value.enum (Path.text ⟨["shop", "Store"]⟩) "OPEN").IsApart
        ∧ (Value.enum "shop.Store" "OPEN").IsApart
        ∧ (Value.enum (Path.text ⟨["shop", "Store"]⟩) "OPEN").literal = .ok "shop.Store.OPEN"
        ∧ (Value.enum "shop.Store" "OPEN").literal = .ok "shop.Store.OPEN"
        ∧ Value.enum (Path.text ⟨["shop", "Store"]⟩) "OPEN" = Value.enum "shop.Store" "OPEN")
      ∧ (Value.float (.ofScaled false 1 (-1) 1)).literal = .ok "0.5"
      ∧ (Value.float (.ofScaled false 1 0 2)).literal = .ok "0.5"
      ∧ Value.float (.ofScaled false 1 (-1) 1) = Value.float (.ofScaled false 1 0 2) := by
  have hpath : (Value.enum (Path.text ⟨["shop", "Store"]⟩) "OPEN").IsApart := by decide
  have htext : (Value.enum "shop.Store" "OPEN").IsApart := by decide
  have hliteral : (Value.enum (Path.text ⟨["shop", "Store"]⟩) "OPEN").literal
      = .ok "shop.Store.OPEN" := by decide
  have hliteral' : (Value.enum "shop.Store" "OPEN").literal = .ok "shop.Store.OPEN" := by decide
  have hscaled : (Value.float (.ofScaled false 1 (-1) 1)).literal = .ok "0.5" := by decide +kernel
  have hquotient : (Value.float (.ofScaled false 1 0 2)).literal = .ok "0.5" := by decide +kernel
  exact ⟨⟨hpath, htext, hliteral, hliteral',
      Value.eq_of_literal hpath htext hliteral hliteral'⟩,
    hscaled, hquotient, Value.eq_of_literal trivial trivial hscaled hquotient⟩

/-- A point in a constant could as well be one of the name of its type. -/
example : (Value.enum "shop" "Store.OPEN").literal = (Value.enum "shop.Store" "OPEN").literal := by
  decide

/-- A type name that begins with a digit makes a constant look like a number. -/
example : (Value.enum "0" "5").literal = (Value.float (.ofScaled false 1 0 2)).literal := by
  decide +kernel

end PersistenceQuery
