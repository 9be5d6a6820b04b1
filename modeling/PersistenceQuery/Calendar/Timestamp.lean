import PersistenceQuery.Calendar.Clock

/-!
# Timestamps

A date together with a time of day.

## Main definitions

* `Timestamp.chars` — date and time with a given character between them.
* `Timestamp.ofText?` — a date, the letter `T` and a time with its seconds.
-/

namespace PersistenceQuery

/-- A time on a date. -/
structure Timestamp where
  date : Date
  time : Clock
  deriving DecidableEq

namespace Timestamp

/-- The date and the time as text, parted by `mark`. -/
def chars (mark : Char) (t : Timestamp) : List Char := t.date.chars ++ mark :: t.time.chars

/-- The timestamp as it is shown and written in literals: with a space. -/
def text (t : Timestamp) : String := String.ofList (t.chars ' ')

/-- The timestamp as it is exchanged: with the letter `T`. -/
def exchangeText (t : Timestamp) : String := String.ofList (t.chars 'T')

/-- The timestamp a text stands for. -/
def ofText? (s : String) : Option Timestamp := do
  let (date, cs) ← Date.read? s.toList
  let cs ← expect 'T' cs
  match Clock.readWithSeconds? cs with
  | some (time, []) => some ⟨date, time⟩
  | _ => none

end Timestamp
end PersistenceQuery
