import PersistenceQuery.Proofs.Binding.Determined
import PersistenceQuery.Proofs.Query.Path
import PersistenceQuery.Proofs.Query.Rules

/-!
# The grammar of literals

A literal is a word of a small grammar: a keyword, digits with or without a point and behind a minus
sign or not, a text between quotes, a date or time of fixed width between braces, or a name with
points in it.  A value that has no such word is refused.  The one exception is a date with a year
outside of the four digits that the grammar has for it: it is written with the sign and with all the
digits of the year.

## Main definitions

* `LiteralWord` — the words of the grammar.
* `Value.HasForm` — the grammar has words for the value.
* `Value.YearFits` — the year of a date has four digits.

## Main results

* `Value.exists_literalWord` — a value that the grammar has words for is written as one of them.
* `Value.not_literalWord` — what is written of a date whose year does not fit is not one.
* `Value.literal_grammar_iff` — literals are words, and all other values are refused, where and only
  where the year fits.
-/

namespace PersistenceQuery

open Text

/-! ### Words -/

/-- At least one digit, and nothing else. -/
def IsDigits (cs : List Char) : Prop := cs ≠ [] ∧ cs.all Char.isDigit = true

/-- A minus sign or nothing. -/
def IsSign (cs : List Char) : Prop := cs = [] ∨ cs = ['-']

/-- A point with digits behind it, or nothing. -/
def IsFraction (cs : List Char) : Prop := cs = [] ∨ ∃ digits, IsDigits digits ∧ cs = '.' :: digits

/-- What can stand between quotes: every quote in it is written twice. -/
inductive Doubled : List Char → Prop
  | nil : Doubled []
  | char {c : Char} {cs : List Char} (hc : c ≠ '\'') (hcs : Doubled cs) : Doubled (c :: cs)
  | quote {cs : List Char} (hcs : Doubled cs) : Doubled ('\'' :: '\'' :: cs)

/-- A text of a fixed form: a digit for every zero of the pattern, and all else as in it. -/
def Shaped (pattern cs : List Char) : Prop :=
  List.Forall₂ (fun p c => if p = '0' then c.isDigit = true else c = p) pattern cs

/-- A marker and a text between quotes, with braces around both. -/
def braced (marker : String) (cs : List Char) : List Char :=
  '\x7b' :: (marker.toList ++ ' ' :: '\'' :: (cs ++ ['\'', '\x7d']))

/-- The words for dates and times; a fraction stands behind the seconds of a timestamp only. -/
inductive TemporalWord : List Char → Prop
  | date {cs : List Char} (h : Shaped "0000-00-00".toList cs) : TemporalWord (braced "d" cs)
  | time {cs : List Char} (h : Shaped "00:00:00".toList cs) : TemporalWord (braced "t" cs)
  | timestamp {cs fraction : List Char} (h : Shaped "0000-00-00 00:00:00".toList cs)
    (hfraction : IsFraction fraction) : TemporalWord (braced "ts" (cs ++ fraction))

/-- The words that literals are. -/
inductive LiteralWord : List Char → Prop
  | keyword {w : String} (h : w ∈ ["NULL", "TRUE", "FALSE"]) : LiteralWord w.toList
  | integer {sign digits : List Char} (hsign : IsSign sign) (hdigits : IsDigits digits) :
    LiteralWord (sign ++ digits)
  | decimal {sign units places : List Char} (hsign : IsSign sign) (hunits : IsDigits units)
    (hplaces : IsDigits places) : LiteralWord (sign ++ (units ++ '.' :: places))
  | quoted {cs : List Char} (h : Doubled cs) : LiteralWord ('\'' :: (cs ++ ['\'']))
  | temporal {cs : List Char} (h : TemporalWord cs) : LiteralWord cs
  | name {names : List String} (hlength : 2 ≤ names.length) (h : ∀ s ∈ names, IsIdentifier s) :
    LiteralWord (Path.joined (names.map String.toList))

/-! ### Values -/

/-- The year of a date or timestamp has the four digits that there are for it. -/
def Value.YearFits : Value → Prop
  | .date d => 0 ≤ d.year ∧ d.year ≤ 9999
  | .timestamp t => 0 ≤ t.date.year ∧ t.date.year ≤ 9999
  | _ => True

/-- The grammar has words for the value: a number is finite, a year has four digits, a time is a
full second of a minute of sixty seconds, and the value is not binary. -/
def Value.HasForm : Value → Prop
  | .float x => x.isFinite = true
  | .time t => t.nanosecond = 0 ∧ t.second ≠ 60
  | .bytes _ => False
  | v => v.YearFits

/-! ### Numbers -/

theorem isDigits_decimal (n : Nat) : IsDigits (decimal n) :=
  ⟨decimal_ne_nil n, Decimal.digits_decimal n⟩

theorem isDigits_padded (width n : Nat) : IsDigits (padded width n) :=
  ⟨padded_ne_nil width n, List.all_eq_true.2 (digits_padded width n)⟩

theorem IsDigits.exists_cons {cs : List Char} (h : IsDigits cs) :
    ∃ c rest, cs = c :: rest ∧ c.isDigit = true := by
  obtain ⟨c, rest, rfl⟩ := List.exists_cons_of_ne_nil h.1
  exact ⟨c, rest, rfl, List.all_eq_true.1 h.2 c List.mem_cons_self⟩

theorem isSign_ite (b : Bool) : IsSign (if b then ['-'] else []) := by
  cases b
  · exact .inl rfl
  · exact .inr rfl

/-- A decimal has digits before its point and behind it. -/
theorem Decimal.exists_pointed (d : Decimal) :
    ∃ units places, IsDigits units ∧ IsDigits places ∧ d.pointed = units ++ '.' :: places := by
  by_cases h : 0 ≤ d.exponent
  · have hall :
        (decimal d.digits ++ List.replicate d.exponent.toNat '0').all Char.isDigit = true := by
      rw [List.all_append, digits_decimal, digits_zeros]
      rfl
    exact ⟨_, ['0'], ⟨List.append_ne_nil_of_left_ne_nil (decimal_ne_nil _) _, hall⟩,
      ⟨List.cons_ne_nil _ _, rfl⟩, pointed_of_nonneg h⟩
  · obtain ⟨n, hn⟩ : ∃ n : Nat, d.exponent = -(n : Int) := ⟨(-d.exponent).toNat, by omega⟩
    have hplaces : (-d.exponent).toNat = n := by omega
    obtain ⟨ds, hds⟩ : ∃ ds, ds = padded (n + 1) d.digits := ⟨_, rfl⟩
    have htext : d.pointed = ds.take (ds.length - n) ++ '.' :: ds.drop (ds.length - n) := by
      rw [pointed_of_neg h, positionalText, if_neg h, hplaces, hds]
      rfl
    have hall : ds.all Char.isDigit = true := hds ▸ (isDigits_padded (n + 1) d.digits).2
    have hlength : n < ds.length := by
      rw [hds, padded, List.length_append, List.length_replicate]
      omega
    rw [← List.take_append_drop (ds.length - n) ds, List.all_append, Bool.and_eq_true] at hall
    refine ⟨_, _, ⟨List.ne_nil_of_length_pos ?_, hall.1⟩, ⟨List.ne_nil_of_length_pos ?_, hall.2⟩,
      htext⟩
    · rw [List.length_take]
      omega
    · rw [List.length_drop]
      omega

/-! ### Quotes -/

theorem doubled_doubleQuotes (cs : List Char) : Doubled (doubleQuotes cs) := by
  induction cs with
  | nil => exact .nil
  | cons c cs ih =>
    rw [doubleQuotes_cons]
    split
    · exact .quote ih
    · next hc => exact .char hc ih

/-- A text without quotes stays as it is. -/
theorem doubleQuotes_of_notMem {cs : List Char} (h : '\'' ∉ cs) : doubleQuotes cs = cs := by
  induction cs with
  | nil => rfl
  | cons c cs ih =>
    rw [List.mem_cons, not_or] at h
    rw [doubleQuotes_cons, if_neg (Ne.symm h.1), ih h.2]

theorem toList_markedLiteral_of_notMem {marker text : String} (h : '\'' ∉ text.toList) :
    (markedLiteral marker text).toList = braced marker text.toList := by
  rw [toList_markedLiteral, toList_quote, doubleQuotes_of_notMem h, braced]
  simp

/-! ### Dates and times -/

namespace Shaped

variable {ps qs as bs : List Char}

theorem append (has : Shaped ps as) (hbs : Shaped qs bs) : Shaped (ps ++ qs) (as ++ bs) :=
  List.rel_append has hbs

theorem cons {c : Char} (hc : c ≠ '0') (h : Shaped ps as) : Shaped (c :: ps) (c :: as) :=
  List.Forall₂.cons ((if_neg hc).mpr rfl) h

/-- A number of as many digits as there are zeros. -/
theorem padded {w n : Nat} (hw : 0 < w) (hn : n < 10 ^ w) :
    Shaped (List.replicate w '0') (padded w n) := by
  refine List.forall₂_iff_get.2 ⟨?_, fun i hi hi' => ?_⟩
  · rw [List.length_replicate, length_padded hw hn]
  · have hdigit : ((Text.padded w n).get ⟨i, hi'⟩).isDigit = true :=
      digits_padded w n _ (List.get_mem _ ⟨i, hi'⟩)
    simpa using hdigit

theorem two {n : Nat} (hn : n < 100) : Shaped "00".toList (Text.padded 2 n) :=
  padded (w := 2) (by decide) hn

end Shaped

theorem Clock.shaped_wholeChars (t : Clock) : Shaped "00:00:00".toList t.wholeChars := by
  have hhour : Shaped "00".toList (padded 2 t.hour) := .two (Nat.lt_trans t.hour_lt (by decide))
  have hminute : Shaped "00".toList (padded 2 t.minute) :=
    .two (Nat.lt_trans t.minute_lt (by decide))
  have hsecond : Shaped "00".toList (padded 2 t.second) :=
    .two (Nat.lt_of_le_of_lt t.second_le (by decide))
  have hcolon : ':' ≠ '0' := by decide
  exact (hhour.append (hminute.cons hcolon)).append (hsecond.cons hcolon)

theorem Date.shaped_chars {d : Date} (h : 0 ≤ d.year ∧ d.year ≤ 9999) :
    Shaped "0000-00-00".toList d.chars := by
  have hle := d.month_le_day_le
  have hyear : Shaped "0000".toList (yearChars d.year) := by
    rw [yearChars, if_pos h]
    exact .padded (w := 4) (by decide) (by omega)
  have hmonth : Shaped "00".toList (padded 2 d.month) := .two (by omega)
  have hday : Shaped "00".toList (padded 2 d.day) := .two (by omega)
  have hhyphen : '-' ≠ '0' := by decide
  exact (hyear.append (hmonth.cons hhyphen)).append (hday.cons hhyphen)

theorem Clock.isFraction_fractionChars (n : Nat) : IsFraction (fractionChars n) := by
  unfold fractionChars
  split
  · exact .inl rfl
  · split
    · exact .inr ⟨_, isDigits_padded 3 _, rfl⟩
    · split
      · exact .inr ⟨_, isDigits_padded 6 _, rfl⟩
      · exact .inr ⟨_, isDigits_padded 9 _, rfl⟩

/-! ### No quotes in dates and times -/

theorem quote_notMem_padded (w n : Nat) : '\'' ∉ padded w n := fun hmem =>
  absurd (digits_padded w n _ hmem) (by decide)

theorem Date.quote_notMem_text (d : Date) : '\'' ∉ d.text.toList := by
  have hyear : '\'' ∉ yearChars d.year := by
    unfold yearChars
    split
    · exact quote_notMem_padded 4 _
    · split <;> simp [quote_notMem_padded]
  simp [text, chars, hyear, quote_notMem_padded]

theorem Clock.quote_notMem_text (t : Clock) : '\'' ∉ t.text.toList := by
  have hfraction : '\'' ∉ fractionChars t.nanosecond := by
    rcases isFraction_fractionChars t.nanosecond with h | ⟨digits, hdigits, h⟩
    · simp [h]
    · rw [h, List.mem_cons, not_or]
      exact ⟨by decide, fun hmem => absurd (List.all_eq_true.1 hdigits.2 _ hmem) (by decide)⟩
  simp [text, chars, wholeChars, hfraction, quote_notMem_padded]

theorem Timestamp.quote_notMem_text (t : Timestamp) : '\'' ∉ t.text.toList := by
  have hdate := t.date.quote_notMem_text
  have htime := t.time.quote_notMem_text
  rw [Date.text, String.toList_ofList] at hdate
  rw [Clock.text, String.toList_ofList] at htime
  simp [text, chars, hdate, htime]

/-! ### Names -/

theorem IsIdentifier.ne_empty {s : String} (h : IsIdentifier s) : s ≠ "" := by
  rintro rfl
  obtain ⟨c, cs, hcs, -⟩ := h
  cases hcs

/-- The name of a constant behind that of its type is a name with points in it. -/
theorem literalWord_enum {typeName constant : String}
    (h : ∀ s ∈ (Value.enum typeName constant).names, IsIdentifier s) :
    LiteralWord (typeName ++ "." ++ constant).toList := by
  have hjoined : Path.joined ((Value.enum typeName constant).names.map String.toList)
      = (typeName ++ "." ++ constant).toList := by
    rw [Value.names, List.map_append, ← Path.ofText_eq_iff.1 rfl, List.map_singleton,
      Path.joined_append_singleton (Path.cut_ne_nil _), Path.joined_cut]
    simp
  have hlength : 2 ≤ (Value.enum typeName constant).names.length := by
    have hpos := List.length_pos_iff.2 (Path.cut_ne_nil typeName.toList)
    simp only [Value.names, Path.ofText, List.length_append, List.length_map, List.length_singleton]
    omega
  rw [← hjoined]
  exact .name hlength h

/-! ### Values that the grammar has words for -/

/-- A value that the grammar has words for is written as one of them. -/
theorem Value.exists_literalWord {v : Value} (hnames : ∀ s ∈ v.names, IsIdentifier s)
    (h : v.HasForm) : ∃ text, v.literal = .ok text ∧ LiteralWord text.toList := by
  cases v with
  | null => exact ⟨_, rfl, .keyword (by decide)⟩
  | bool b => exact ⟨_, rfl, .keyword (by cases b <;> decide)⟩
  | int n =>
    refine ⟨_, rfl, ?_⟩
    rw [toList_toString_int]
    exact .integer (isSign_ite _) (isDigits_decimal _)
  | float x =>
    refine ⟨_, if_pos h, ?_⟩
    obtain ⟨units, places, hunits, hplaces, htext⟩ := (x.shortest .up).exists_pointed
    rw [String.toList_ofList, Binary64.floatLiteral_eq h, htext]
    exact .decimal (isSign_ite _) hunits hplaces
  | string s =>
    refine ⟨_, rfl, ?_⟩
    rw [toList_quote]
    exact .quoted (doubled_doubleQuotes _)
  | date d =>
    refine ⟨_, rfl, ?_⟩
    rw [toList_markedLiteral_of_notMem d.quote_notMem_text, Date.text, String.toList_ofList]
    exact .temporal (.date (Date.shaped_chars h))
  | time t =>
    obtain ⟨hnanosecond, hsecond⟩ := h
    have hwhole : t.isWholeSecond = true := by simp [Clock.isWholeSecond, hnanosecond, hsecond]
    refine ⟨_, if_pos hwhole, ?_⟩
    have hchars : t.chars = t.wholeChars := by simp [Clock.chars, Clock.fractionChars, hnanosecond]
    rw [toList_markedLiteral_of_notMem t.quote_notMem_text, Clock.text, String.toList_ofList,
      hchars]
    exact .temporal (.time t.shaped_wholeChars)
  | timestamp t =>
    refine ⟨_, rfl, ?_⟩
    have hshaped : Shaped "0000-00-00 00:00:00".toList (t.date.chars ++ ' ' :: t.time.wholeChars) :=
      (Date.shaped_chars h).append (t.time.shaped_wholeChars.cons (by decide))
    have hchars : t.chars ' ' = t.date.chars ++ ' ' :: t.time.wholeChars
        ++ Clock.fractionChars t.time.nanosecond := by
      simp [Timestamp.chars, Clock.chars]
    rw [toList_markedLiteral_of_notMem t.quote_notMem_text, Timestamp.text, String.toList_ofList,
      hchars]
    exact .temporal (.timestamp hshaped (Clock.isFraction_fractionChars _))
  | enum typeName constant =>
    have htype : typeName ≠ "" := by
      rintro rfl
      exact (hnames "" (List.mem_append_left _ (by decide))).ne_empty rfl
    have hconstant : constant ≠ "" := (hnames constant (List.mem_append_right _ (by simp))).ne_empty
    exact ⟨_, if_neg (by simp [htype, hconstant]), literalWord_enum hnames⟩
  | bytes data => exact h.elim

/-! ### Dates whose year does not fit -/

/-- What begins with a brace can only be a word for a date or time. -/
theorem LiteralWord.temporal_of_brace {cs : List Char} (h : LiteralWord cs)
    (hcs : cs.head? = some '\x7b') : TemporalWord cs := by
  cases h with
  | keyword h =>
    simp only [List.mem_cons, List.not_mem_nil, or_false] at h
    rcases h with rfl | rfl | rfl <;> cases hcs
  | integer hsign hds =>
    obtain ⟨c, digits, rfl, hc⟩ := hds.exists_cons
    rcases hsign with rfl | rfl <;> cases hcs
    cases hc
  | decimal hsign hunits =>
    obtain ⟨c, units, rfl, hc⟩ := hunits.exists_cons
    rcases hsign with rfl | rfl <;> cases hcs
    cases hc
  | quoted h => cases hcs
  | temporal h => exact h
  | @name names hlength h =>
    obtain ⟨s, t, rest, rfl⟩ : ∃ s t rest, names = s :: t :: rest := by
      match names, hlength with
      | s :: t :: rest, _ => exact ⟨s, t, rest, rfl⟩
    obtain ⟨c, cs, hs, hletter, -⟩ := h s List.mem_cons_self
    rw [List.map_cons, List.map_cons, Path.joined, hs] at hcs
    · obtain rfl : c = '\x7b' := by simpa using hcs
      exact absurd hletter (by unfold IsNameLetter; decide)
    · exact List.cons_ne_nil _ _

theorem braced_injective (marker : String) : Function.Injective (braced marker) := by
  intro as bs h
  have htext := List.append_cancel_left (List.cons.inj h).2
  exact List.append_cancel_right (List.cons.inj (List.cons.inj htext).2).2

theorem TemporalWord.shaped_of_date {cs : List Char} (h : TemporalWord (braced "d" cs)) :
    Shaped "0000-00-00".toList cs := by
  generalize hds : braced "d" cs = ds at h
  cases h with
  | date h => exact braced_injective "d" hds ▸ h
  | time h => cases hds
  | timestamp h hfraction => cases hds

theorem TemporalWord.shaped_of_timestamp {cs : List Char} (h : TemporalWord (braced "ts" cs)) :
    ∃ as fraction, Shaped "0000-00-00 00:00:00".toList as ∧ cs = as ++ fraction := by
  generalize hds : braced "ts" cs = ds at h
  cases h with
  | date h => cases hds
  | time h => cases hds
  | timestamp h hfraction => exact ⟨_, _, h, braced_injective "ts" hds⟩

/-- Where the pattern begins with a zero, the text begins with a digit. -/
theorem Shaped.exists_digit {ps cs : List Char} (h : Shaped ('0' :: ps) cs) :
    ∃ c rest, cs = c :: rest ∧ c.isDigit = true := by
  cases h with
  | cons hc hrest => exact ⟨_, _, rfl, hc⟩

/-- A year that does not fit is written behind its sign. -/
theorem Date.exists_sign {d : Date} (h : ¬ (0 ≤ d.year ∧ d.year ≤ 9999)) :
    ∃ c rest, d.chars = c :: rest ∧ c.isDigit = false := by
  rw [chars, yearChars, if_neg h]
  split
  · exact ⟨_, _, rfl, rfl⟩
  · exact ⟨_, _, rfl, rfl⟩

/-- What is written of a date whose year does not fit is no word of the grammar. -/
theorem Value.not_literalWord {v : Value} (h : ¬ v.YearFits) :
    ∃ text, v.literal = .ok text ∧ ¬ LiteralWord text.toList := by
  cases v with
  | date d =>
    refine ⟨_, rfl, fun hword => ?_⟩
    rw [toList_markedLiteral_of_notMem d.quote_notMem_text, Date.text,
      String.toList_ofList] at hword
    obtain ⟨c, rest, hchars, hdigit⟩ := (hword.temporal_of_brace rfl).shaped_of_date.exists_digit
    obtain ⟨sign, rest', hsigned, hsign⟩ := Date.exists_sign h
    rw [hsigned, List.cons.injEq] at hchars
    rw [hchars.1, hdigit] at hsign
    cases hsign
  | timestamp t =>
    refine ⟨_, rfl, fun hword => ?_⟩
    rw [toList_markedLiteral_of_notMem t.quote_notMem_text, Timestamp.text,
      String.toList_ofList] at hword
    obtain ⟨as, fraction, hshaped, hchars⟩ := (hword.temporal_of_brace rfl).shaped_of_timestamp
    obtain ⟨c, rest, rfl, hdigit⟩ := hshaped.exists_digit
    obtain ⟨sign, rest', hsigned, hsign⟩ := Date.exists_sign h
    rw [Timestamp.chars, hsigned, List.cons_append, List.cons_append, List.cons.injEq] at hchars
    rw [hchars.1, hdigit] at hsign
    cases hsign
  | _ => exact absurd trivial h

/-! ### The boundary of the grammar -/

/-- A value without a form is refused, if it is not for its year that it has none. -/
theorem Value.literal_of_not_hasForm {v : Value} (hyear : v.YearFits) (h : ¬ v.HasForm) :
    ∃ cause, v.literal = .error cause := by
  cases v with
  | float x => exact ⟨_, if_neg h⟩
  | time t =>
    have hwhole : ¬ t.isWholeSecond = true := by simpa [Clock.isWholeSecond, HasForm] using h
    exact ⟨_, if_neg hwhole⟩
  | bytes data => exact ⟨_, rfl⟩
  | _ => exact absurd hyear h

/-- A value that the grammar has words for is written as one of them.  All literals are words of the
grammar and all other values are refused where the year of the value has four digits, and not where
it has a sign. -/
theorem Value.literal_grammar_iff {v : Value} (hnames : ∀ s ∈ v.names, IsIdentifier s) :
    (v.HasForm → ∃ text, v.literal = .ok text ∧ LiteralWord text.toList)
      ∧ ((∀ text, v.literal = .ok text → LiteralWord text.toList)
          ∧ (¬ v.HasForm → ∃ cause, v.literal = .error cause) ↔ v.YearFits) := by
  refine ⟨exists_literalWord hnames, ?_, ?_⟩
  · rintro ⟨hword, -⟩
    by_contra hyear
    obtain ⟨text, htext, hnot⟩ := not_literalWord hyear
    exact hnot (hword text htext)
  · intro hyear
    refine ⟨fun text htext => ?_, literal_of_not_hasForm hyear⟩
    by_cases hform : v.HasForm
    · obtain ⟨text', htext', hword⟩ := exists_literalWord hnames hform
      obtain rfl : text' = text := Except.ok.inj (htext'.symm.trans htext)
      exact hword
    · obtain ⟨cause, hcause⟩ := literal_of_not_hasForm hyear hform
      rw [htext] at hcause
      cases hcause

/-- A constant of a type whose name has points in it. -/
theorem literalWord_storeOpen :
    (∀ s ∈ (Value.enum "shop.Store" "OPEN").names, IsIdentifier s)
      ∧ ∀ text, (Value.enum "shop.Store" "OPEN").literal = .ok text → LiteralWord text.toList := by
  have hnames : ∀ s ∈ (Value.enum "shop.Store" "OPEN").names, IsIdentifier s := by decide
  exact ⟨hnames, ((Value.literal_grammar_iff hnames).2.2 trivial).1⟩

/-- The first day of the year 10000. -/
def farDay : Date := ⟨10000, 1, 1, by decide⟩

/-- It is written with the sign of its year, which is no word of the grammar, and is not refused. -/
theorem literal_farDay :
    (Value.date farDay).literal = .ok "\x7bd '+10000-01-01'\x7d"
      ∧ ¬ LiteralWord "\x7bd '+10000-01-01'\x7d".toList ∧ ¬ (Value.date farDay).HasForm := by
  have hyear : ¬ (Value.date farDay).YearFits := by
    rintro ⟨-, hle⟩
    exact absurd hle (by decide)
  have hliteral : (Value.date farDay).literal = .ok "\x7bd '+10000-01-01'\x7d" := by decide +kernel
  obtain ⟨text, htext, hword⟩ := Value.not_literalWord hyear
  obtain rfl := Except.ok.inj (hliteral.symm.trans htext)
  exact ⟨hliteral, hword, hyear⟩

end PersistenceQuery
