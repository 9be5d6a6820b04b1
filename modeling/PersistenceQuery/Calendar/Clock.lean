import PersistenceQuery.Calendar.Date

/-!
# Times of day

A time of day to the nanosecond.  A minute may have a sixty-first second, the leap second.

## Main definitions

* `Clock` — hour, minute, second and nanosecond.
* `Clock.chars` — `HH:MM:SS` and the fraction in three, six or nine digits, if there is one.
* `Clock.isWholeSecond` — the time is one that `HH:MM:SS` tells, which a leap second is not.
* `Clock.readWithSeconds?`, `Clock.ofText?` — a time at the front of a text, and a text that is a
  time, whose seconds may be left out.
-/

namespace PersistenceQuery

open Text

/-- A time of day; second `60` is the leap second. -/
structure Clock where
  hour : Nat
  minute : Nat
  second : Nat
  nanosecond : Nat
  hour_lt : hour < 24
  minute_lt : minute < 60
  second_le : second ≤ 60
  nanosecond_lt : nanosecond < 1000000000
  deriving DecidableEq

namespace Clock

/-- The time of an hour, minute, second and nanosecond, if the day has it. -/
def of? (hour minute second nanosecond : Nat) : Option Clock :=
  if h : hour < 24 ∧ minute < 60 ∧ second ≤ 60 ∧ nanosecond < 1000000000 then
    some ⟨hour, minute, second, nanosecond, h.1, h.2.1, h.2.2.1, h.2.2.2⟩
  else none

/-- The fraction behind the seconds: the least of three, six and nine digits that is exact, and
nothing for a whole second. -/
def fractionChars (nanosecond : Nat) : List Char :=
  if nanosecond = 0 then []
  else if nanosecond % 1000000 = 0 then '.' :: padded 3 (nanosecond / 1000000)
  else if nanosecond % 1000 = 0 then '.' :: padded 6 (nanosecond / 1000)
  else '.' :: padded 9 nanosecond

/-- Hour, minute and second with colons between them. -/
def wholeChars (t : Clock) : List Char :=
  padded 2 t.hour ++ ':' :: padded 2 t.minute ++ ':' :: padded 2 t.second

/-- The time as text. -/
def chars (t : Clock) : List Char := t.wholeChars ++ fractionChars t.nanosecond

/-- The time as a string. -/
def text (t : Clock) : String := String.ofList t.chars

/-- The time is a whole second of a minute of sixty seconds. -/
def isWholeSecond (t : Clock) : Bool := t.nanosecond == 0 && t.second != 60

/-- The nanoseconds behind a point: at least one digit, of which those after the ninth are
skipped.  Without a point there are none. -/
def readFraction? : List Char → Option (Nat × List Char)
  | '.' :: cs =>
    match spanDigits cs with
    | ([], _) => none
    | (digits, rest) =>
      let kept := digits.take 9
      some (valueOf kept * Nat.pow 10 (9 - kept.length), rest)
  | cs => some (0, cs)

theorem readFraction?_length {cs rest : List Char} {n : Nat}
    (h : readFraction? cs = some (n, rest)) : rest.length ≤ cs.length := by
  unfold readFraction? spanDigits at h
  split at h
  · split at h
    · simp at h
    · rename_i heq
      simp only [Option.some.injEq, Prod.mk.injEq] at h heq
      rw [← h.2, ← heq.2, List.length_cons]
      exact Nat.le_succ_of_le (List.dropWhile_sublist _).length_le
  · simp only [Option.some.injEq, Prod.mk.injEq] at h
    exact h.2 ▸ Nat.le_refl _

/-- The hour and the minute at the front of a text. -/
def readHourMinute? (cs : List Char) : Option ((Nat × Nat) × List Char) := do
  let (hour, cs) ← Date.readTwo? cs
  let cs ← expect ':' cs
  let (minute, cs) ← Date.readTwo? cs
  some ((hour, minute), cs)

/-- The seconds behind the minutes, with their fraction. -/
def readSeconds? (cs : List Char) : Option ((Nat × Nat) × List Char) := do
  let cs ← expect ':' cs
  let (second, cs) ← digitsUpTo 2 (skipBlanks cs)
  let (nanosecond, cs) ← readFraction? cs
  some ((second, nanosecond), skipBlanks cs)

/-- The time at the front of a text, and the text after it; the seconds must be there. -/
def readWithSeconds? (cs : List Char) : Option (Clock × List Char) := do
  let ((hour, minute), cs) ← readHourMinute? cs
  let ((second, nanosecond), cs) ← readSeconds? cs
  let time ← of? hour minute second nanosecond
  some (time, cs)

/-- The time a text stands for; without seconds it is a full minute. -/
def ofText? (s : String) : Option Clock := do
  let ((hour, minute), cs) ← readHourMinute? s.toList
  match readSeconds? cs with
  | some ((second, nanosecond), []) => of? hour minute second nanosecond
  | _ => if cs.isEmpty then of? hour minute 0 0 else none

end Clock
end PersistenceQuery
