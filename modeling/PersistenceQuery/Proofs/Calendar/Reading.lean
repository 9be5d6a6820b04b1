import Mathlib.Data.List.TakeWhile
import Mathlib.Data.Nat.Digits.Lemmas
import PersistenceQuery.Calendar.Timestamp

/-!
# Reading back dates and times

The text of a date, of a time of day or of a timestamp is read back as what it was written from.
Numbers are written with leading zeros and read by their count of digits, a year outside of four
digits behind its sign by all its digits; blanks are skipped between the numbers, and none is
written.

## Main results

* `digitsUpTo_padded`, `digitRun_padded` — a padded number is read back.
* `Date.ofText?_text`, `Clock.ofText?_text`, `Timestamp.ofText?_exchangeText` — so is what is made
  of such numbers.
-/

namespace PersistenceQuery
namespace Text

/-! ### Padded numbers -/

theorem digits_padded (width n : Nat) : ∀ c ∈ padded width n, isDigit c = true := by
  intro c hc
  rcases List.mem_append.1 hc with hzero | hdigit
  · rw [List.eq_of_mem_replicate hzero]
    rfl
  · have h : c.isDigit = true := Nat.isDigit_of_mem_toDigits (by decide) (by decide) hdigit
    exact h

theorem length_padded {width n : Nat} (hw : 0 < width) (hn : n < 10 ^ width) :
    (padded width n).length = width := by
  have hle : (decimal n).length ≤ width := Nat.toDigits_length 10 n width hw hn
  rw [padded, List.length_append, List.length_replicate]
  omega

/-- Zeros in front do not change what digits stand for. -/
theorem valueOf_padded (width n : Nat) : valueOf (padded width n) = n := by
  have hzeros : ∀ k, valueOf (List.replicate k '0') = 0 := by
    intro k
    induction k with
    | zero => rfl
    | succ k ih => rwa [List.replicate_succ, valueOf, Nat.ofDigitChars_cons]
  rw [padded, valueOf, Nat.ofDigitChars_append]
  have h := hzeros (width - (decimal n).length)
  rw [valueOf] at h
  rw [h]
  exact valueOf_decimal n

theorem padded_ne_nil (width n : Nat) : padded width n ≠ [] := by
  have hpos : 0 < (decimal n).length := Nat.length_toDigits_pos
  exact List.append_ne_nil_of_right_ne_nil _ (List.ne_nil_of_length_pos hpos)

/-- As many digits as are read give the number. -/
theorem digitsUpTo_padded {width n : Nat} (hw : 0 < width) (hn : n < 10 ^ width)
    (rest : List Char) : digitsUpTo width (padded width n ++ rest) = some (n, rest) := by
  have hlength := length_padded hw hn
  have htake : (padded width n ++ rest).take width = padded width n := List.take_left' hlength
  have hdigits : (padded width n).takeWhile isDigit = padded width n :=
    List.takeWhile_eq_self_iff.2 (digits_padded width n)
  rw [digitsUpTo, htake, hdigits, valueOf_padded, List.drop_left]
  simp [padded_ne_nil]

theorem spanDigits_padded {width n : Nat} {rest : List Char}
    (hrest : ∀ c ∈ rest.head?, isDigit c = false) :
    spanDigits (padded width n ++ rest) = (padded width n, rest) := by
  have hstop : rest.takeWhile isDigit = [] ∧ rest.dropWhile isDigit = rest := by
    cases rest with
    | nil => exact ⟨rfl, rfl⟩
    | cons c rest => simp [hrest c rfl]
  rw [spanDigits, List.takeWhile_append_of_pos (digits_padded width n),
    List.dropWhile_append_of_pos (digits_padded width n), hstop.1, hstop.2, List.append_nil]

/-- All digits give the number, where what follows is no digit. -/
theorem digitRun_padded {width n : Nat} {rest : List Char}
    (hrest : ∀ c ∈ rest.head?, isDigit c = false) :
    digitRun (padded width n ++ rest) = some (n, rest) := by
  rw [digitRun, spanDigits_padded hrest]
  cases h : padded width n with
  | nil => exact absurd h (padded_ne_nil width n)
  | cons c cs =>
    show some (valueOf (c :: cs), rest) = some (n, rest)
    rw [← h, valueOf_padded]

/-! ### Between numbers -/

theorem not_isBlank_of_isDigit {c : Char} (h : isDigit c = true) : isBlank c = false := by
  have hbounds : 48 ≤ c.toNat ∧ c.toNat ≤ 57 := by
    simpa [isDigit, Char.le_def, UInt32.le_iff_toNat_le] using h
  simp only [isBlank, Bool.or_eq_false_iff, Bool.and_eq_false_iff, decide_eq_false_iff_not,
    beq_eq_false_iff_ne, ne_eq]
  omega

/-- A padded number begins with a digit. -/
theorem exists_padded_cons (width n : Nat) :
    ∃ c cs, padded width n = c :: cs ∧ isDigit c = true := by
  obtain ⟨c, cs, h⟩ := List.exists_cons_of_ne_nil (padded_ne_nil width n)
  exact ⟨c, cs, h, digits_padded width n c (h ▸ List.mem_cons_self)⟩

theorem skipBlanks_padded (width n : Nat) (rest : List Char) :
    skipBlanks (padded width n ++ rest) = padded width n ++ rest := by
  obtain ⟨c, cs, h, hdigit⟩ := exists_padded_cons width n
  rw [h, List.cons_append, skipBlanks_cons, not_isBlank_of_isDigit hdigit]
  rfl

end Text

open Text

theorem expect_self (c : Char) (rest : List Char) : expect c (c :: rest) = some rest := by
  simp [expect]

/-! ### Dates -/

namespace Date

theorem of?_eq (d : Date) : of? d.year d.month d.day = some d := by
  rw [of?, dif_pos d.valid]

theorem month_le_day_le (d : Date) : d.month ≤ 12 ∧ d.day ≤ 31 := by
  have h := d.valid
  simp only [isCalendarDay, Bool.and_eq_true, decide_eq_true_eq] at h
  obtain ⟨⟨⟨-, -⟩, hpos⟩, hle⟩ := h
  unfold daysInMonth at hle
  split at hle <;> grind

theorem readTwo?_padded {n : Nat} (hn : n < 100) (rest : List Char) :
    readTwo? (padded 2 n ++ rest) = some (n, skipBlanks rest) := by
  rw [readTwo?, skipBlanks_padded, digitsUpTo_padded (by decide) hn]
  rfl

/-- The year is read up to the hyphen behind it. -/
theorem readYear?_yearChars (year : Int) (rest : List Char) :
    readYear? (yearChars year ++ '-' :: rest) = some (year, '-' :: rest) := by
  have hhyphen : ∀ c ∈ ('-' :: rest).head?, isDigit c = false := by
    rintro c hc
    obtain rfl : '-' = c := by simpa using hc
    rfl
  rw [yearChars]
  split
  · -- four digits, which neither sign can be taken for
    have hyear : ((year.natAbs : Nat) : Int) = year := by omega
    have hsmall : year.natAbs < 10 ^ 4 := by omega
    rw [readYear?, skipBlanks_padded]
    have hread := digitsUpTo_padded (by decide : 0 < 4) hsmall ('-' :: rest)
    obtain ⟨c, cs, h, hdigit⟩ := exists_padded_cons 4 year.natAbs
    rw [h, List.cons_append] at hread ⊢
    split
    · next heq => cases heq; cases hdigit
    · next heq => cases heq; cases hdigit
    · rw [hread]
      exact congrArg (fun y => some (y, _)) hyear
  · split
    · have hyear : -((year.natAbs : Nat) : Int) = year := by omega
      show (digitRun (padded 4 year.natAbs ++ '-' :: rest)).map _ = _
      rw [digitRun_padded hhyphen]
      exact congrArg (fun y => some (y, _)) hyear
    · have hyear : ((year.natAbs : Nat) : Int) = year := by omega
      show (digitRun (padded 4 year.natAbs ++ '-' :: rest)).map _ = _
      rw [digitRun_padded hhyphen]
      exact congrArg (fun y => some (y, _)) hyear

/-- A date is read at the front of a text; blanks behind it are skipped. -/
theorem read?_chars (d : Date) (rest : List Char) :
    read? (d.chars ++ rest) = some (d, skipBlanks rest) := by
  have hmonth := readTwo?_padded (n := d.month) (by have := d.month_le_day_le; omega)
    ('-' :: (padded 2 d.day ++ rest))
  have hday := readTwo?_padded (n := d.day) (by have := d.month_le_day_le; omega) rest
  have hchars : d.chars ++ rest
      = yearChars d.year ++ '-' :: (padded 2 d.month ++ '-' :: (padded 2 d.day ++ rest)) := by
    simp [chars]
  have hhyphen : ∀ cs, expect '-' (skipBlanks ('-' :: cs)) = some cs := fun cs =>
    expect_self '-' cs
  rw [hchars, read?]
  simp only [readYear?_yearChars, hhyphen, hmonth, hday, of?_eq, Option.bind_eq_bind,
    Option.bind_some]

/-- A date is what its text stands for. -/
theorem ofText?_text (d : Date) : ofText? d.text = some d := by
  have h := d.read?_chars []
  rw [List.append_nil] at h
  rw [ofText?, text, String.toList_ofList, h]
  rfl

end Date

/-! ### Times of day -/

namespace Clock

theorem of?_eq (t : Clock) : of? t.hour t.minute t.second t.nanosecond = some t := by
  rw [of?, dif_pos ⟨t.hour_lt, t.minute_lt, t.second_le, t.nanosecond_lt⟩]

/-- The digits behind a point, of a number of nanoseconds that ends in zeros. -/
theorem readFraction?_padded {width n : Nat} (hw : 0 < width) (hle : width ≤ 9)
    (hn : n < 10 ^ width) :
    readFraction? ('.' :: padded width n) = some (n * 10 ^ (9 - width), []) := by
  have hspan : spanDigits (padded width n ++ []) = (padded width n, []) :=
    spanDigits_padded (by simp)
  rw [List.append_nil] at hspan
  have hlength := length_padded hw hn
  have htake : (padded width n).take 9 = padded width n :=
    List.take_of_length_le (hlength.trans_le hle)
  have hvalue := valueOf_padded width n
  rw [readFraction?, hspan]
  cases h : padded width n with
  | nil => exact absurd h (padded_ne_nil width n)
  | cons c cs =>
    rw [h] at htake hlength hvalue
    simp only [htake, hlength, hvalue, Nat.pow_eq]

theorem readFraction?_fractionChars {n : Nat} (hn : n < 1000000000) :
    readFraction? (fractionChars n) = some (n, []) := by
  rw [fractionChars]
  split
  · next h => rw [h]; rfl
  split
  · next h =>
    rw [readFraction?_padded (by decide) (by decide) (by omega)]
    congr 2
    omega
  split
  · next h =>
    rw [readFraction?_padded (by decide) (by decide) (by omega)]
    congr 2
    omega
  · rw [readFraction?_padded (by decide) (by decide) hn]
    congr 2
    omega

/-- Hours and minutes are read up to the colon in front of the seconds. -/
theorem readHourMinute?_chars (t : Clock) :
    readHourMinute? t.chars
      = some ((t.hour, t.minute), ':' :: (padded 2 t.second ++ fractionChars t.nanosecond)) := by
  have hhour := Date.readTwo?_padded (n := t.hour) (by have := t.hour_lt; omega)
    (':' :: (padded 2 t.minute ++ ':' :: (padded 2 t.second ++ fractionChars t.nanosecond)))
  have hminute := Date.readTwo?_padded (n := t.minute) (by have := t.minute_lt; omega)
    (':' :: (padded 2 t.second ++ fractionChars t.nanosecond))
  have hchars : t.chars = padded 2 t.hour ++ ':' :: (padded 2 t.minute ++ ':' ::
      (padded 2 t.second ++ fractionChars t.nanosecond)) := by
    simp [chars, wholeChars]
  have hcolon : ∀ cs, expect ':' (skipBlanks (':' :: cs)) = some cs := fun cs => expect_self ':' cs
  rw [hchars, readHourMinute?]
  simp only [hhour, hminute, hcolon, Option.bind_eq_bind, Option.bind_some]
  rfl

theorem readSeconds?_chars (t : Clock) :
    readSeconds? (':' :: (padded 2 t.second ++ fractionChars t.nanosecond))
      = some ((t.second, t.nanosecond), []) := by
  have hsmall : t.second < 10 ^ 2 := by
    have := t.second_le
    omega
  have hsecond := digitsUpTo_padded (by decide) hsmall (fractionChars t.nanosecond)
  rw [readSeconds?]
  simp only [expect_self, skipBlanks_padded, hsecond, readFraction?_fractionChars t.nanosecond_lt,
    Option.bind_eq_bind, Option.bind_some]
  rfl

/-- A time of day is what its text stands for. -/
theorem ofText?_text (t : Clock) : ofText? t.text = some t := by
  rw [ofText?, text, String.toList_ofList]
  simp only [readHourMinute?_chars, readSeconds?_chars, of?_eq, Option.bind_eq_bind,
    Option.bind_some]

theorem readWithSeconds?_chars (t : Clock) : readWithSeconds? t.chars = some (t, []) := by
  rw [readWithSeconds?]
  simp only [readHourMinute?_chars, readSeconds?_chars, of?_eq, Option.bind_eq_bind,
    Option.bind_some]

end Clock

/-! ### Timestamps -/

/-- A timestamp is what its text for exchange stands for. -/
theorem Timestamp.ofText?_exchangeText (t : Timestamp) : ofText? t.exchangeText = some t := by
  have hdate := t.date.read?_chars ('T' :: t.time.chars)
  have hmark : expect 'T' (skipBlanks ('T' :: t.time.chars)) = some t.time.chars :=
    expect_self 'T' _
  rw [ofText?, exchangeText, chars, String.toList_ofList]
  simp only [hdate, hmark, Clock.readWithSeconds?_chars, Option.bind_eq_bind, Option.bind_some]

end PersistenceQuery
