import PersistenceQuery.Calendar.Clock

/-!
# Date-times of TOML

A date-time is a date, a time of day, or a date and a time that may say how far its clock is from
universal time.  All numbers in it have a fixed count of digits, only the fraction of a second has
as many as it needs.

## Main definitions

* `Toml.DateTime`, `Toml.DateTime.text` — a date-time, and the one text it is given.
* `Toml.DateTime.read?` — a date-time at the front of a text.
-/

namespace PersistenceQuery
namespace Toml

open Text

/-- How far a clock is from universal time. -/
inductive Offset
  /-- It shows universal time. -/
  | universal
  /-- It is ahead by a number of minutes, or behind if the number is negative. -/
  | minutes (n : Int)
  deriving DecidableEq

/-- A date, a time of day, or both. -/
inductive DateTime
  | date (d : Date)
  | time (t : Clock)
  | full (d : Date) (t : Clock) (offset : Option Offset)
  deriving DecidableEq

/-! ### Writing -/

/-- The fraction of a second, without zeros at its end, and nothing for a whole second. -/
def fractionChars (nanosecond : Nat) : List Char :=
  if nanosecond = 0 then []
  else '.' :: ((padded 9 nanosecond).reverse.dropWhile (· == '0')).reverse

/-- A time of day as text. -/
def timeChars (t : Clock) : List Char := t.wholeChars ++ fractionChars t.nanosecond

/-- An offset as text; one of zero minutes is ahead. -/
def Offset.chars : Offset → List Char
  | .universal => ['Z']
  | .minutes n =>
    (if n < 0 then '-' else '+') :: padded 2 (n.natAbs / 60) ++ ':' :: padded 2 (n.natAbs % 60)

/-- A date-time as text, with the letter `T` between date and time. -/
def DateTime.chars : DateTime → List Char
  | .date d => d.chars
  | .time t => timeChars t
  | .full d t offset => d.chars ++ 'T' :: timeChars t ++ (offset.map Offset.chars).getD []

/-- A date-time as a string. -/
def DateTime.text (d : DateTime) : String := String.ofList d.chars

/-! ### Reading -/

/-- The date at the front of a text, and the text after it. -/
def readDate? (cs : List Char) : Option (Date × List Char) := do
  let (year, cs) ← fixedDigits 4 cs
  let cs ← expect '-' cs
  let (month, cs) ← fixedDigits 2 cs
  let cs ← expect '-' cs
  let (day, cs) ← fixedDigits 2 cs
  let date ← Date.of? year month day
  some (date, cs)

/-- The time of day at the front of a text, and the text after it. -/
def readTime? (cs : List Char) : Option (Clock × List Char) := do
  let (hour, cs) ← fixedDigits 2 cs
  let cs ← expect ':' cs
  let (minute, cs) ← fixedDigits 2 cs
  let cs ← expect ':' cs
  let (second, cs) ← fixedDigits 2 cs
  let (nanosecond, cs) ← Clock.readFraction? cs
  let time ← Clock.of? hour minute second nanosecond
  some (time, cs)

/-- Hours and minutes, as minutes. -/
def readMinutes? (cs : List Char) : Option (Nat × List Char) := do
  let (hour, cs) ← fixedDigits 2 cs
  let cs ← expect ':' cs
  let (minute, cs) ← fixedDigits 2 cs
  if hour < 24 ∧ minute < 60 then some (60 * hour + minute, cs) else none

/-- The offset behind a time, if there is one, and the text after it. -/
def readOffset (cs : List Char) : Option Offset × List Char :=
  match cs with
  | 'Z' :: rest | 'z' :: rest => (some .universal, rest)
  | '+' :: rest =>
    match readMinutes? rest with
    | some (n, rest) => (some (.minutes n), rest)
    | none => (none, cs)
  | '-' :: rest =>
    match readMinutes? rest with
    | some (n, rest) => (some (.minutes (-n)), rest)
    | none => (none, cs)
  | _ => (none, cs)

/-- The time behind a date, after a letter or a space. -/
def readBehindDate? : List Char → Option (Clock × List Char)
  | c :: cs => if c = 'T' ∨ c = 't' ∨ c = ' ' then readTime? cs else none
  | [] => none

/-- The date-time at the front of a text, and the text after it. -/
def DateTime.read? (cs : List Char) : Option (DateTime × List Char) :=
  match readDate? cs with
  | some (d, cs) =>
    match readBehindDate? cs with
    | some (t, cs) => some (.full d t (readOffset cs).1, (readOffset cs).2)
    | none => some (.date d, cs)
  | none => (readTime? cs).map fun (t, cs) => (.time t, cs)

theorem readDate?_length {cs rest : List Char} {d : Date}
    (h : readDate? cs = some (d, rest)) : rest.length < cs.length := by
  simp only [readDate?, Option.bind_eq_bind, Option.bind_eq_some_iff, Option.some.injEq,
    Prod.mk.injEq] at h
  obtain ⟨_, h1, _, h2, _, h3, _, h4, _, h5, _, _, _, rfl⟩ := h
  have := fixedDigits_length h1
  have := expect_length h2
  have := fixedDigits_length h3
  have := expect_length h4
  have := fixedDigits_length h5
  omega

theorem readTime?_length {cs rest : List Char} {t : Clock}
    (h : readTime? cs = some (t, rest)) : rest.length < cs.length := by
  simp only [readTime?, Option.bind_eq_bind, Option.bind_eq_some_iff, Option.some.injEq,
    Prod.mk.injEq] at h
  obtain ⟨_, h1, _, h2, _, h3, _, h4, _, h5, _, h6, _, _, _, rfl⟩ := h
  have := fixedDigits_length h1
  have := expect_length h2
  have := fixedDigits_length h3
  have := expect_length h4
  have := fixedDigits_length h5
  have := Clock.readFraction?_length h6
  omega

theorem readMinutes?_length {cs rest : List Char} {n : Nat}
    (h : readMinutes? cs = some (n, rest)) : rest.length < cs.length := by
  simp only [readMinutes?, Option.bind_eq_bind, Option.bind_eq_some_iff,
    Option.ite_none_right_eq_some, Option.some.injEq, Prod.mk.injEq] at h
  obtain ⟨_, h1, _, h2, _, h3, _, _, rfl⟩ := h
  have := fixedDigits_length h1
  have := expect_length h2
  have := fixedDigits_length h3
  omega

theorem readOffset_length (cs : List Char) : (readOffset cs).2.length ≤ cs.length := by
  unfold readOffset
  split
  · simp
  · simp
  · split
    · rename_i h
      have := readMinutes?_length h
      simp only [List.length_cons]
      omega
    · simp
  · split
    · rename_i h
      have := readMinutes?_length h
      simp only [List.length_cons]
      omega
    · simp
  · simp

theorem readBehindDate?_length {cs rest : List Char} {t : Clock}
    (h : readBehindDate? cs = some (t, rest)) : rest.length < cs.length := by
  cases cs with
  | nil => simp [readBehindDate?] at h
  | cons c cs =>
    simp only [readBehindDate?, Option.ite_none_right_eq_some] at h
    have := readTime?_length h.2
    simp only [List.length_cons]
    omega

theorem DateTime.read?_length {cs rest : List Char} {d : DateTime}
    (h : DateTime.read? cs = some (d, rest)) : rest.length < cs.length := by
  unfold DateTime.read? at h
  split at h
  · rename_i hd
    have := readDate?_length hd
    split at h
    · rename_i s t cs' ht
      have := readBehindDate?_length ht
      have := readOffset_length cs'
      simp only [Option.some.injEq, Prod.mk.injEq] at h
      rw [← h.2]
      omega
    · simp only [Option.some.injEq, Prod.mk.injEq] at h
      exact h.2 ▸ this
  · obtain ⟨⟨_, _⟩, ht, hr⟩ := Option.map_eq_some_iff.1 h
    simp only [Prod.mk.injEq] at hr
    exact hr.2 ▸ readTime?_length ht

end Toml
end PersistenceQuery
