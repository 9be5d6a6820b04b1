import PersistenceQuery.Json.Printer
import PersistenceQuery.Json.Reader
import PersistenceQuery.Proofs.Binding.Determined

/-!
# The tokens of written JSON

A text that is written for a JSON value is cut into the tokens that it was made of: a string is
unescaped again, a number or a word ends where something else follows it, and blanks leave no trace.

## Main definitions

* `Json.Apart` — no number and no word goes on with the text.
* `Json.Scans` — a text is cut into some tokens, whatever stands apart behind it.

## Main results

* `Json.Scans.append` — texts that stand apart are cut one after the other.
* `Json.scans_stringText` — a string is one token, and holds what was written.
* `Json.scans_toString` — so is an integer, whatever it is kept as.
-/

namespace PersistenceQuery
namespace Json

open Text Token

/-- Neither a number nor a word goes on with the first character of the text. -/
def Apart (cs : List Char) : Prop := ∀ c ∈ cs.head?, isNumeric c = false ∧ isLetter c = false

/-- The text is cut into the tokens, and what stands apart behind it is cut for itself. -/
def Scans (cs : List Char) (ts : List Token) : Prop :=
  ∀ rest, Apart rest → ofChars? (cs ++ rest) = (ofChars? rest).map (ts ++ ·)

/-- A character that is a token for itself. -/
structure IsMark (c : Char) (t : Token) : Prop where
  isBlank : Token.isBlank c = false
  isNumeric : isNumeric c = false
  isLetter : isLetter c = false
  next : ∀ cs, next? c cs = some (t, cs)

/-! ### One token after the other -/

theorem apart_nil : Apart [] := by
  intro c hc
  cases hc

theorem IsMark.apart {c : Char} {t : Token} (h : IsMark c t) (cs : List Char) :
    Apart (c :: cs) := by
  intro d hd
  cases hd
  exact ⟨h.isNumeric, h.isLetter⟩

theorem Apart.append {as bs : List Char} (has : Apart as) (hbs : Apart bs) : Apart (as ++ bs) := by
  cases as with
  | nil => exact hbs
  | cons a as => exact has

theorem ofChars?_of_isBlank {c : Char} (h : Token.isBlank c = true) (cs : List Char) :
    ofChars? (c :: cs) = ofChars? cs := by
  rw [ofChars?, if_pos h]

/-- Behind the next token the text is cut on. -/
theorem ofChars?_of_next {c : Char} (hblank : Token.isBlank c = false) (cs : List Char) :
    ofChars? (c :: cs) = (next? c cs).bind fun r => (ofChars? r.2).map (r.1 :: ·) := by
  rw [ofChars?, if_neg (by simp [hblank])]
  split
  · next hnone => rw [hnone]; rfl
  · next t rest hsome => rw [hsome]; rfl

namespace Scans

variable {as bs cs : List Char} {ts us : List Token}

theorem nil : Scans [] [] := by
  intro rest _
  simp

/-- Texts that stand apart are cut one after the other. -/
theorem append (has : Scans as ts) (hbs : Scans bs us) (hapart : Apart bs) :
    Scans (as ++ bs) (ts ++ us) := by
  intro rest hrest
  rw [List.append_assoc, has _ (hapart.append hrest), hbs rest hrest, Option.map_map]
  simp only [Function.comp_def, List.append_assoc]

/-- Blanks in front are skipped. -/
theorem blanks (hblanks : bs.all Token.isBlank = true) (hcs : Scans cs ts) :
    Scans (bs ++ cs) ts := by
  induction bs with
  | nil => exact hcs
  | cons b bs ih =>
    rw [List.all_cons, Bool.and_eq_true] at hblanks
    intro rest hrest
    rw [List.cons_append, List.cons_append, ofChars?_of_isBlank hblanks.1]
    exact ih hblanks.2 rest hrest

/-- A mark and what is behind it. -/
theorem mark {c : Char} {t : Token} (h : IsMark c t) (hcs : Scans cs ts) :
    Scans (c :: cs) (t :: ts) := by
  intro rest hrest
  rw [List.cons_append, ofChars?_of_next h.isBlank, h.next, Option.bind_some, hcs rest hrest,
    Option.map_map]
  rfl

/-- A run of characters that is one token where something else follows it. -/
theorem run {c : Char} {t : Token} (hblank : Token.isBlank c = false)
    (hnext : ∀ rest, Apart rest → next? c (cs ++ rest) = some (t, rest)) : Scans (c :: cs) [t] := by
  intro rest hrest
  rw [List.cons_append, ofChars?_of_next hblank, hnext rest hrest]
  rfl

end Scans

/-! ### Strings -/

/-- A control character is read back from its two hexadecimal digits. -/
theorem hexNumber?_escape {n : Nat} (h : n < 0x20) :
    hexNumber? ['0', '0', hexDigitChar (n / 16), hexDigitChar (n % 16)] = some n := by
  have hall : ∀ n < 0x20,
      hexNumber? ['0', '0', hexDigitChar (n / 16), hexDigitChar (n % 16)] = some n := by decide
  exact hall n h

/-- A letter behind a backslash is one piece. -/
theorem pieces?_escaped {c e : Char} (hu : e ≠ 'u') (he : escaped? e = some c) (cs : List Char) :
    pieces? ('\\' :: e :: cs) = (pieces? cs).map fun r => (.char c :: r.1, r.2) := by
  rw [pieces?]
  · rw [he]
    cases pieces? cs <;> rfl
  · intro a b c d rest h
    exact absurd h hu

theorem pieces?_unit {a b c d : Char} {u : Nat} (h : hexNumber? [a, b, c, d] = some u)
    (cs : List Char) :
    pieces? ('\\' :: 'u' :: a :: b :: c :: d :: cs)
      = (pieces? cs).map fun r => (.unit u :: r.1, r.2) := by
  rw [pieces?, h]
  cases pieces? cs <;> rfl

theorem pieces?_char {c : Char} (hquote : c ≠ '"') (hbackslash : c ≠ '\\') (hc : ¬ c.toNat < 0x20)
    (cs : List Char) : pieces? (c :: cs) = (pieces? cs).map fun r => (.char c :: r.1, r.2) := by
  rw [pieces?]
  · rw [if_neg (not_or.2 ⟨hc, hbackslash⟩)]
    cases pieces? cs <;> rfl
  · exact hquote
  · intro a b c' d rest h
    exact absurd h hbackslash
  · intro c' rest h
    exact absurd h hbackslash

/-- A character is one piece, which stands for it. -/
theorem exists_piece (c : Char) :
    ∃ p, (∀ ps, joinPieces? (p :: ps) = (joinPieces? ps).map (c :: ·))
      ∧ ∀ cs, pieces? (escapeChar c ++ cs) = (pieces? cs).map fun r => (p :: r.1, r.2) := by
  have hchar : ∀ ps, joinPieces? (.char c :: ps) = (joinPieces? ps).map (c :: ·) := fun _ => rfl
  have hescaped : ∀ e, e ≠ 'u' → escaped? e = some c → ∃ p,
      (∀ ps, joinPieces? (p :: ps) = (joinPieces? ps).map (c :: ·))
        ∧ ∀ cs, pieces? (['\\', e] ++ cs) = (pieces? cs).map fun r => (p :: r.1, r.2) :=
    fun e hu he => ⟨.char c, hchar, pieces?_escaped hu he⟩
  unfold escapeChar
  split_ifs with h₁ h₂ h₃ h₄ h₅ h₆ h₇ hcontrol
  · exact hescaped '"' (by decide) (by rw [h₁]; rfl)
  · exact hescaped '\\' (by decide) (by rw [h₂]; rfl)
  · exact hescaped 'b' (by decide) (by rw [h₃]; rfl)
  · exact hescaped 'f' (by decide) (by rw [h₄]; rfl)
  · exact hescaped 'n' (by decide) (by rw [h₅]; rfl)
  · exact hescaped 'r' (by decide) (by rw [h₆]; rfl)
  · exact hescaped 't' (by decide) (by rw [h₇]; rfl)
  · -- a control character is a unit, and no half of a pair
    refine ⟨.unit c.toNat, fun ps => ?_, pieces?_unit (hexNumber?_escape hcontrol)⟩
    have hleading : isLeading c.toNat = false := by
      simp only [isLeading, Bool.and_eq_false_iff, decide_eq_false_iff_not]
      omega
    have htrailing : isTrailing c.toNat = false := by
      simp only [isTrailing, Bool.and_eq_false_iff, decide_eq_false_iff_not]
      omega
    rcases ps with _ | ⟨_ | _, ps⟩ <;> simp [joinPieces?, hleading, htrailing]
  · exact ⟨.char c, hchar, pieces?_char h₁ h₂ hcontrol⟩

/-- The pieces of an escaped text stand for the text. -/
theorem exists_pieces (cs rest : List Char) :
    ∃ ps, joinPieces? ps = some cs
      ∧ pieces? (cs.flatMap escapeChar ++ '"' :: rest) = some (ps, rest) := by
  induction cs with
  | nil => exact ⟨[], rfl, rfl⟩
  | cons c cs ih =>
    obtain ⟨ps, hjoin, hpieces⟩ := ih
    obtain ⟨p, hp, hc⟩ := exists_piece c
    refine ⟨p :: ps, ?_, ?_⟩
    · rw [hp, hjoin]
      rfl
    · rw [List.flatMap_cons, List.append_assoc, hc, hpieces]
      rfl

/-- A string is one token, and holds what was written. -/
theorem scans_stringText (s : String) : Scans (stringText s).toList [.text (some s)] := by
  have htext : (stringText s).toList = '"' :: (s.toList.flatMap escapeChar ++ ['"']) :=
    String.toList_ofList
  rw [htext]
  refine .run (by decide) fun rest _ => ?_
  obtain ⟨ps, hjoin, hpieces⟩ := exists_pieces s.toList rest
  have hnext : ∀ cs, next? '"' cs
      = (pieces? cs).map fun r => (.text ((joinPieces? r.1).map String.ofList), r.2) := fun _ => rfl
  rw [List.append_assoc, List.singleton_append, hnext, hpieces, Option.map_some, hjoin,
    Option.map_some, String.ofList_toList]

/-! ### Numbers and words -/

/-- A run of characters ends where one of another kind follows it. -/
theorem span_append {p : Char → Bool} {cs rest : List Char} (hcs : cs.all p = true)
    (hrest : ∀ c ∈ rest.head?, p c = false) :
    (cs ++ rest).takeWhile p = cs ∧ (cs ++ rest).dropWhile p = rest := by
  have hall := List.all_eq_true.1 hcs
  have hstop : rest.takeWhile p = [] ∧ rest.dropWhile p = rest := by
    cases rest with
    | nil => exact ⟨rfl, rfl⟩
    | cons c rest => simp [hrest c rfl]
  rw [List.takeWhile_append_of_pos hall, List.dropWhile_append_of_pos hall, hstop.1, hstop.2,
    List.append_nil]
  exact ⟨rfl, rfl⟩

/-- A character that is neither a mark nor a quote begins a word or a number. -/
theorem next?_of_isToken {c : Char} (h : isNumeric c = true ∨ isLetter c = true) (cs : List Char) :
    Token.isBlank c = false ∧ next? c cs = if isLetter c then
      (word? (c :: cs.takeWhile isLetter)).map fun t => (t, cs.dropWhile isLetter)
      else (number? (c :: cs.takeWhile isNumeric)).map fun t => (t, cs.dropWhile isNumeric) := by
  have hne : ∀ d, isNumeric d = false → isLetter d = false → c ≠ d := by
    rintro d hnumeric hletter rfl
    rcases h with h | h
    · rw [hnumeric] at h
      cases h
    · rw [hletter] at h
      cases h
  refine ⟨?_, ?_⟩
  · simp [Token.isBlank, hne ' ' rfl rfl, hne '\t' rfl rfl, hne '\n' rfl rfl, hne '\r' rfl rfl]
  · rw [next?, if_neg (hne '{' rfl rfl), if_neg (hne '}' rfl rfl), if_neg (hne '[' rfl rfl),
      if_neg (hne ']' rfl rfl), if_neg (hne ':' rfl rfl), if_neg (hne ',' rfl rfl),
      if_neg (hne '"' rfl rfl)]

/-- Letters are one token where they are a word. -/
theorem scans_word {cs : List Char} {t : Token} (hne : cs ≠ []) (hall : cs.all isLetter = true)
    (h : word? cs = some t) : Scans cs [t] := by
  obtain ⟨c, cs, rfl⟩ := List.exists_cons_of_ne_nil hne
  rw [List.all_cons, Bool.and_eq_true] at hall
  refine .run (next?_of_isToken (.inr hall.1) []).1 fun rest hrest => ?_
  obtain ⟨htake, hdrop⟩ := span_append hall.2 fun c hc => (hrest c hc).2
  rw [(next?_of_isToken (.inr hall.1) _).2, hall.1, htake, hdrop, h]
  rfl

theorem scans_null : Scans "null".toList [.scalar .null] := scans_word (by decide) (by decide) rfl

theorem scans_bool (b : Bool) :
    Scans (if b then "true" else "false").toList [.scalar (.bool b)] := by
  cases b <;> exact scans_word (by decide) (by decide) rfl

/-! ### Integers -/

/-- The first digit of a positive number is not zero. -/
theorem head?_decimal_ne {n : Nat} (hn : 0 < n) : (decimal n).head? ≠ some '0' := by
  induction n using Nat.strongRecOn with
  | ind n ih =>
    rw [decimal, Nat.toDigits_eq_if (by decide)]
    split
    · next hlt =>
      have hall : ∀ m < 10, 0 < m → [m.digitChar].head? ≠ some '0' := by decide
      exact hall n hlt hn
    · have hrest := ih (n / 10) (by omega) (by omega)
      rwa [List.head?_append_of_ne_nil (Nat.toDigits 10 (n / 10)) (decimal_ne_nil (n / 10))]

/-- So no zero stands in front of other digits. -/
theorem not_leading_zero (n : Nat) :
    ¬ (1 < (decimal n).length ∧ (decimal n).head? = some '0') := by
  rintro ⟨hlength, hhead⟩
  have hn : n = 0 := Nat.eq_zero_of_not_pos fun hpos => head?_decimal_ne hpos hhead
  rw [hn] at hlength
  exact absurd hlength (by decide)

/-- An integer as it is written. -/
def integerNumeral (z : Int) : Decimal.Numeral := ⟨decide (z < 0), decimal z.natAbs, none, none⟩

theorem read?_toString (z : Int) :
    Decimal.Numeral.read? (toString z).toList = some (integerNumeral z, []) := by
  have hspan : spanDigits (decimal z.natAbs) = (decimal z.natAbs, []) := by
    have hdigits : (decimal z.natAbs).all isDigit = true := Decimal.digits_decimal z.natAbs
    have h := span_append hdigits (by simp : ∀ c ∈ [].head?, isDigit c = false)
    rw [List.append_nil] at h
    rw [spanDigits, h.1, h.2]
  have hvalid : ¬ ((decimal z.natAbs).isEmpty = true
      ∨ 1 < (decimal z.natAbs).length ∧ (decimal z.natAbs).head? = some '0') := by
    rw [List.isEmpty_iff, not_or]
    exact ⟨decimal_ne_nil _, not_leading_zero _⟩
  rw [toList_toString_int, integerNumeral]
  cases hz : decide (z < 0) with
  | true =>
    show Decimal.Numeral.read? ('-' :: decimal z.natAbs) = _
    rw [Decimal.Numeral.read?]
    simp only [hspan]
    rw [if_neg hvalid]
    rfl
  | false =>
    show Decimal.Numeral.read? (decimal z.natAbs) = _
    rw [Decimal.Numeral.read?]
    · simp only [hspan]
      rw [if_neg hvalid]
      rfl
    · intro cs hcs
      exact Decimal.minus_notMem_of_digits (Decimal.digits_decimal z.natAbs)
        (hcs ▸ List.mem_cons_self)

theorem isWideInteger_iff {z : Int} :
    isWideInteger z = true ↔ Int64.minValue.toInt ≤ z ∧ z < UInt64.size := by
  rw [isWideInteger, Bool.and_eq_true, decide_eq_true_eq, decide_eq_true_eq]

/-- An integer is kept as it is if it fits in 64 bits, and otherwise as the floating point number
that is found in steps from its digits. -/
theorem ofNumeral_integerNumeral (z : Int) :
    ofNumeral (integerNumeral z) = if isWideInteger z then .integer z
      else match (integerNumeral z).stepwise? with
        | some x => .real x
        | none => .unreadable := by
  have hmantissa : (integerNumeral z).mantissa = z.natAbs := by
    rw [Decimal.Numeral.mantissa, Decimal.Numeral.behind, integerNumeral, Option.getD_none,
      List.append_nil, valueOf_decimal]
  have hsigned : (if (integerNumeral z).negative then -((integerNumeral z).mantissa : Int)
      else (integerNumeral z).mantissa) = z := by
    rw [hmantissa, integerNumeral]
    simp only [decide_eq_true_eq]
    split <;> omega
  have hzero : ((integerNumeral z).negative && (integerNumeral z).mantissa == 0) = false := by
    rw [hmantissa, integerNumeral]
    simp only [Bool.and_eq_false_iff, decide_eq_false_iff_not, beq_eq_false_iff_ne]
    omega
  rw [ofNumeral, hsigned, hzero]
  rfl

theorem isNumeric_of_isDigit {c : Char} (h : c.isDigit = true) :
    isNumeric c = true ∧ isLetter c = false := by
  have hdigit : isDigit c = true := h
  refine ⟨by simp [isNumeric, hdigit], ?_⟩
  simp only [isDigit, Bool.and_eq_true, decide_eq_true_eq] at hdigit
  rw [isLetter, Bool.and_eq_false_iff]
  left
  rw [decide_eq_false_iff_not]
  exact fun hle => absurd (Char.le_trans hle hdigit.2) (by decide)

/-- The text can be a number: there is something in it, all of it is numeric, and the first
character is no letter. -/
structure IsNumeral (cs : List Char) : Prop where
  ne_nil : cs ≠ []
  isLetter_head : ∀ c ∈ cs.head?, isLetter c = false
  numeric : cs.all isNumeric = true

/-- What can be a number is one token if it is one, and no token otherwise. -/
theorem IsNumeral.ofChars?_append {cs rest : List Char} (hcs : IsNumeral cs) (hrest : Apart rest) :
    ofChars? (cs ++ rest) = (number? cs).bind fun t => (ofChars? rest).map (t :: ·) := by
  obtain ⟨hne, hhead, hall⟩ := hcs
  obtain ⟨c, cs, rfl⟩ := List.exists_cons_of_ne_nil hne
  rw [List.all_cons, Bool.and_eq_true] at hall
  obtain ⟨htake, hdrop⟩ := span_append hall.2 fun c hc => (hrest c hc).1
  obtain ⟨hblank, hnext⟩ := next?_of_isToken (.inl hall.1) (cs ++ rest)
  rw [hhead c rfl, htake, hdrop] at hnext
  rw [List.cons_append, ofChars?_of_next hblank, hnext]
  cases number? (c :: cs) <;> rfl

theorem IsNumeral.scans {cs : List Char} {t : Token} (hcs : IsNumeral cs)
    (h : number? cs = some t) : Scans cs [t] := by
  intro rest hrest
  rw [hcs.ofChars?_append hrest, h]
  rfl

/-- The same behind a minus sign. -/
theorem IsNumeral.signed {cs : List Char} (hcs : IsNumeral cs) (negative : Bool) :
    IsNumeral ((if negative then ['-'] else []) ++ cs) := by
  cases negative with
  | false => exact hcs
  | true =>
    refine ⟨List.cons_ne_nil _ _, ?_, hcs.numeric⟩
    rintro c ⟨⟩
    rfl

theorem isNumeral_decimal (n : Nat) : IsNumeral (decimal n) := by
  have hdigits := List.all_eq_true.1 (Decimal.digits_decimal n)
  exact ⟨decimal_ne_nil n,
    fun c hc => (isNumeric_of_isDigit (hdigits c (List.mem_of_mem_head? hc))).2,
    List.all_eq_true.2 fun c hc => (isNumeric_of_isDigit (hdigits c hc)).1⟩

theorem number?_of_read {cs : List Char} {n : Decimal.Numeral}
    (h : Decimal.Numeral.read? cs = some (n, [])) : number? cs = some (.scalar (ofNumeral n)) := by
  rw [number?, h]

/-- An integer is one token, whatever it is kept as. -/
theorem scans_toString (z : Int) :
    Scans (toString z).toList [.scalar (ofNumeral (integerNumeral z))] := by
  have hnumber := number?_of_read (read?_toString z)
  rw [toList_toString_int] at hnumber ⊢
  exact ((isNumeral_decimal z.natAbs).signed _).scans hnumber

/-! ### Floating point numbers -/

/-- A number is the only thing that numeric characters can be. -/
theorem exists_of_number? {cs : List Char} {t : Token} (h : number? cs = some t) :
    ∃ j, t = .scalar j := by
  unfold number? at h
  split at h
  · cases h
    exact ⟨_, rfl⟩
  · cases h

theorem isNumeral_positionalText (pointZero : Bool) (d : Decimal) :
    IsNumeral (Decimal.positionalText pointZero d) := by
  have hall :
      (Decimal.positionalText pointZero d).all (fun c => isNumeric c && !isLetter c) = true :=
    all_positionalText (fun c hc => by
      obtain ⟨hnumeric, hletter⟩ := isNumeric_of_isDigit hc
      rw [hnumeric, hletter]
      rfl) (by decide) pointZero d
  simp only [List.all_eq_true, Bool.and_eq_true, Bool.not_eq_true'] at hall
  refine ⟨?_, fun c hc => (hall c (List.mem_of_mem_head? hc)).2,
    List.all_eq_true.2 fun c hc => (hall c hc).1⟩
  unfold Decimal.positionalText
  split <;> simp [decimal_ne_nil]

theorem isNumeral_scientificText (d : Decimal) : IsNumeral (Decimal.scientificText d) := by
  have hsign : ∀ x : Int, isNumeric (if x < 0 then '-' else '+') = true := by
    intro x
    split <;> rfl
  obtain ⟨-, hhead, hdigits⟩ := isNumeral_decimal d.digits
  obtain ⟨c, cs, hcs⟩ := List.exists_cons_of_ne_nil (decimal_ne_nil d.digits)
  rw [hcs, List.all_cons, Bool.and_eq_true] at hdigits
  obtain ⟨fraction, x, hfraction, htext⟩ : ∃ (fraction : List Char) (x : Int),
      fraction.all isNumeric = true ∧ Decimal.scientificText d
        = c :: (fraction ++ 'e' :: (if x < 0 then '-' else '+') :: decimal x.natAbs) := by
    rw [Decimal.scientificText, hcs]
    cases cs with
    | nil => exact ⟨[], _, rfl, rfl⟩
    | cons d cs => exact ⟨'.' :: d :: cs, _, hdigits.2, rfl⟩
  rw [htext]
  refine ⟨List.cons_ne_nil _ _, ?_, ?_⟩
  · rintro e ⟨⟩
    exact hhead c (by rw [hcs]; rfl)
  · rw [List.all_cons, List.all_append, hdigits.1, hfraction, List.all_cons, List.all_cons, hsign,
      (isNumeral_decimal _).numeric]
    rfl

theorem isNumeral_write {x : Binary64} (h : x.isFinite = true) :
    IsNumeral (Decimal.Layout.exchange.write x) := by
  have hnan : x.isNaN = false := by
    rw [Binary64.isFinite, decide_eq_true_eq] at h
    exact decide_eq_false (Nat.lt_asymm h)
  have hunsigned : ∀ (positional : Bool) (d : Decimal), IsNumeral
      (if positional then Decimal.positionalText Decimal.Layout.exchange.pointZero d
        else Decimal.scientificText d) := by
    intro positional d
    cases positional with
    | false => exact isNumeral_scientificText d
    | true => exact isNumeral_positionalText _ d
  rw [Decimal.Layout.write, hnan, h]
  cases x.negative with
  | false => exact hunsigned _ _
  | true => exact (hunsigned _ _).signed true

end Json
end PersistenceQuery
