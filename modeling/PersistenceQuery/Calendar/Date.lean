import PersistenceQuery.Text.Blank
import PersistenceQuery.Text.Digits

/-!
# Calendar dates

Dates of the proleptic Gregorian calendar, from the year −262143 to the year 262142.

## Main definitions

* `Date` — a year, month and day that the calendar has.
* `Date.chars` — year, month and day with hyphens; a year outside `0..9999` shows its sign.
* `Date.read?`, `Date.ofText?` — a date at the front of a text, and a text that is a date.
-/

namespace PersistenceQuery

open Text

/-- Every fourth year, of the full centuries only every fourth. -/
def isLeapYear (year : Int) : Bool :=
  year % 4 == 0 && (year % 100 != 0 || year % 400 == 0)

/-- How many days a month has; none if there is no such month. -/
def daysInMonth (year : Int) (month : Nat) : Nat :=
  match month with
  | 1 | 3 | 5 | 7 | 8 | 10 | 12 => 31
  | 4 | 6 | 9 | 11 => 30
  | 2 => if isLeapYear year then 29 else 28
  | _ => 0

/-- The calendar has this day, in a year that is kept. -/
def isCalendarDay (year : Int) (month day : Nat) : Bool :=
  -262143 ≤ year && year ≤ 262142 && 1 ≤ day && day ≤ daysInMonth year month

/-- A day of the calendar. -/
structure Date where
  year : Int
  month : Nat
  day : Nat
  valid : isCalendarDay year month day = true
  deriving DecidableEq

/-- Reads one given character. -/
def expect (c : Char) : List Char → Option (List Char)
  | x :: rest => if x = c then some rest else none
  | [] => none

theorem expect_length {c : Char} {cs rest : List Char} (h : expect c cs = some rest) :
    rest.length + 1 = cs.length := by
  cases cs with
  | nil => simp [expect] at h
  | cons x xs =>
    simp only [expect, Option.ite_none_right_eq_some, Option.some.injEq] at h
    simp [h.2]

namespace Date

/-- The date of a year, month and day, if the calendar has it. -/
def of? (year : Int) (month day : Nat) : Option Date :=
  if h : isCalendarDay year month day = true then some ⟨year, month, day, h⟩ else none

/-- The year with four digits, and with its sign where it has more or comes before the year 0. -/
def yearChars (year : Int) : List Char :=
  if 0 ≤ year ∧ year ≤ 9999 then padded 4 year.natAbs
  else (if year < 0 then '-' else '+') :: padded 4 year.natAbs

/-- The date as text: year, month and day with hyphens between them. -/
def chars (d : Date) : List Char :=
  yearChars d.year ++ '-' :: padded 2 d.month ++ '-' :: padded 2 d.day

/-- The date as a string. -/
def text (d : Date) : String := String.ofList d.chars

/-- The year at the front of a text: up to four digits, or a sign and any number of them. -/
def readYear? (cs : List Char) : Option (Int × List Char) :=
  match skipBlanks cs with
  | '-' :: cs => (digitRun cs).map fun (n, rest) => (-(n : Int), rest)
  | '+' :: cs => (digitRun cs).map fun (n, rest) => ((n : Int), rest)
  | cs => (digitsUpTo 4 cs).map fun (n, rest) => ((n : Int), rest)

/-- A number of at most two digits, with the blanks around it. -/
def readTwo? (cs : List Char) : Option (Nat × List Char) :=
  (digitsUpTo 2 (skipBlanks cs)).map fun (n, rest) => (n, skipBlanks rest)

/-- The date at the front of a text, and the text after it.  Blanks around the numbers are
skipped. -/
def read? (cs : List Char) : Option (Date × List Char) := do
  let (year, cs) ← readYear? cs
  let cs ← expect '-' (skipBlanks cs)
  let (month, cs) ← readTwo? cs
  let cs ← expect '-' cs
  let (day, cs) ← readTwo? cs
  let date ← of? year month day
  some (date, cs)

/-- The date a text stands for. -/
def ofText? (s : String) : Option Date :=
  match read? s.toList with
  | some (date, []) => some date
  | _ => none

end Date
end PersistenceQuery
