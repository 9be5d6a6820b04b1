/-!
# Decimal digits

Numbers as decimal digits: written with a least width, and read from the front of a text.

## Main definitions

* `decimal n`, `padded w n` — the digits of `n`, and the same filled up with zeros to `w` digits.
* `digitsUpTo k cs` — the number at the front of `cs`, of one to `k` digits.
* `digitRun cs` — the number at the front of `cs`, of any number of digits.
* `fixedDigits k cs` — the number at the front of `cs`, of `k` digits.
* `hexNumber? ds` — the number that hexadecimal digits stand for.
-/

namespace PersistenceQuery
namespace Text

/-- An ASCII decimal digit. -/
def isDigit (c : Char) : Bool := '0' ≤ c && c ≤ '9'

/-- The decimal digits of `n`, without leading zeros. -/
def decimal (n : Nat) : List Char := Nat.toDigits 10 n

/-- The number a run of decimal digits stands for. -/
def valueOf (digits : List Char) : Nat := Nat.ofDigitChars 10 digits 0

theorem valueOf_decimal (n : Nat) : valueOf (decimal n) = n :=
  Nat.ofDigitChars_toDigits (by decide) (by decide)

/-- The decimal digits of `n`, filled up with zeros on the left to at least `width` digits. -/
def padded (width n : Nat) : List Char :=
  List.replicate (width - (decimal n).length) '0' ++ decimal n

/-- The digits at the front of a text, and the text after them. -/
def spanDigits (cs : List Char) : List Char × List Char :=
  (cs.takeWhile isDigit, cs.dropWhile isDigit)

/-- The number at the front of `cs`, read from one to `limit` digits, and the text after it. -/
def digitsUpTo (limit : Nat) (cs : List Char) : Option (Nat × List Char) :=
  let digits := (cs.take limit).takeWhile isDigit
  if digits.isEmpty then none else some (valueOf digits, cs.drop digits.length)

/-- The number at the front of `cs`, read from all the digits there, and the text after it. -/
def digitRun (cs : List Char) : Option (Nat × List Char) :=
  match spanDigits cs with
  | ([], _) => none
  | (digits, rest) => some (valueOf digits, rest)

/-- The number that the first `count` characters of `cs` are the digits of, and the text after
them. -/
def fixedDigits (count : Nat) (cs : List Char) : Option (Nat × List Char) :=
  let digits := cs.take count
  if digits.length = count ∧ digits.all isDigit then some (valueOf digits, cs.drop count) else none

theorem fixedDigits_length {count n : Nat} {cs rest : List Char}
    (h : fixedDigits count cs = some (n, rest)) : rest.length + count = cs.length := by
  unfold fixedDigits at h
  simp only [Option.ite_none_right_eq_some, List.length_take, Option.some.injEq,
    Prod.mk.injEq] at h
  obtain ⟨⟨hc, _⟩, _, rfl⟩ := h
  simp only [List.length_drop]
  omega

/-! ### Hexadecimal digits -/

/-- The value of a hexadecimal digit. -/
def hexDigit? (c : Char) : Option Nat :=
  if '0' ≤ c ∧ c ≤ '9' then some (c.toNat - '0'.toNat)
  else if 'a' ≤ c ∧ c ≤ 'f' then some (c.toNat - 'a'.toNat + 10)
  else if 'A' ≤ c ∧ c ≤ 'F' then some (c.toNat - 'A'.toNat + 10)
  else none

/-- The number that hexadecimal digits stand for. -/
def hexNumber? (digits : List Char) : Option Nat :=
  digits.foldlM (fun n c => (hexDigit? c).map (16 * n + ·)) 0

end Text
end PersistenceQuery
