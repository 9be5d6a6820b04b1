import PersistenceQuery.Decimal.Binary64
import PersistenceQuery.Text.Digits

/-!
# Numbers as they are written

A numeral keeps the digits of a number apart: those before the point, those behind it, and the
power of ten.  It has two values among the floating point numbers.  One is the number nearest to
it.  The other is found in steps from the digits that fit in 64 bits, and because each step rounds
it may be a few units of the last place away from the first.

## Main definitions

* `Numeral`, `Numeral.read?` — a numeral, and the one at the front of a text in JSON.
* `Numeral.nearest?` — the nearest floating point number.
* `Numeral.leading`, `Numeral.stepwise?` — the digits that fit in 64 bits, and the floating point
  number found from them.
* `Binary64.ofText?` — a text in the free form of numerals, with infinity and the absence of a
  number.
-/

namespace PersistenceQuery
namespace Decimal

open Text

/-- A number as it is written. -/
structure Numeral where
  negative : Bool
  /-- The digits before the point. -/
  units : List Char
  /-- The digits behind the point, if there is one. -/
  places : Option (List Char)
  /-- The power of ten, if there is one. -/
  power : Option Int
  deriving DecidableEq

namespace Numeral

/-- The digits behind the point. -/
def behind (n : Numeral) : List Char := n.places.getD []

/-- The number is written without a fraction and without a power of ten. -/
def isWhole (n : Numeral) : Bool := n.places.isNone && n.power.isNone

/-- All digits as one number. -/
def mantissa (n : Numeral) : Nat := valueOf (n.units ++ n.behind)

/-- The power of ten that the last digit counts. -/
def exponent (n : Numeral) : Int := n.power.getD 0 - n.behind.length

/-- The number nearest to `± mantissa * 10 ^ exponent`. -/
def nearest? (n : Numeral) : Option Binary64 :=
  Binary64.ofDecimal n.negative n.mantissa n.exponent

/-! ### The value found in steps -/

/-- Takes digits behind a number as long as it stays within 64 bits: the number, and the digits
left over. -/
def takeDigits (n : Nat) : List Char → Nat × List Char
  | [] => (n, [])
  | c :: cs =>
    let more := Nat.ofDigitChars 10 [c] n
    if more < UInt64.size then takeDigits more cs else (n, c :: cs)

/-- The digits that fit in 64 bits, as one number, and the power of ten that the last of them
counts.  Of the digits before the point and of those behind it, the first that does not fit is
left out with all that follow it. -/
def leading (n : Numeral) : Nat × Int :=
  let (whole, skipped) := takeDigits 0 n.units
  let (all, left) := takeDigits whole n.behind
  (all, n.power.getD 0 + skipped.length + left.length - n.behind.length)

end Numeral

/-! ### Powers of ten in steps -/

/-- The greatest power of ten that is a finite floating point number. -/
def greatestPower : Nat := 308

/-- The number nearest to a power of ten. -/
def powerOfTen (k : Nat) : Binary64 := (Binary64.ofDecimal false 1 k).getD (.infinity false)

/-- Divides by the greatest power of ten a number of times; nothing is left to do at zero. -/
def descend (x : Binary64) : Nat → Binary64
  | 0 => x
  | steps + 1 =>
    if x.magnitude = 0 then x else descend (x.div (powerOfTen greatestPower)) steps

/-- `x * 10 ^ e` by one product with a power of ten, or by quotients with the greatest one until a
last quotient is enough, each rounded.  Past the greatest power only zero stays finite. -/
def shifted (x : Binary64) (e : Int) : Binary64 :=
  if e < 0 then
    let places := e.natAbs
    let steps := (places - 1) / greatestPower
    (descend x steps).div (powerOfTen (places - greatestPower * steps))
  else if e ≤ greatestPower then x.mul (powerOfTen e.natAbs)
  else if x.magnitude = 0 then x
  else .infinity x.negative

/-- The value of the leading digits, found in steps, unless it is past the greatest finite
number. -/
def Numeral.stepwise? (n : Numeral) : Option Binary64 :=
  let (digits, e) := n.leading
  let x := shifted (.ofScaled n.negative digits 0 1) e
  if x.isFinite then some x else none

/-! ### Reading -/

/-- The digits behind a point, if there is a point: at least one. -/
def fraction? : List Char → Option (Option (List Char) × List Char)
  | '.' :: cs =>
    match spanDigits cs with
    | ([], _) => none
    | (digits, rest) => some (some digits, rest)
  | cs => some (none, cs)

/-- The power of ten behind an `e`, if there is one: an optional sign and at least one digit. -/
def power? : List Char → Option (Option Int × List Char)
  | c :: cs =>
    if c = 'e' ∨ c = 'E' then
      let (sign, cs) := match cs with
        | '-' :: cs => ((-1 : Int), cs)
        | '+' :: cs => (1, cs)
        | cs => (1, cs)
      (digitRun cs).map fun (n, rest) => (some (sign * n), rest)
    else some (none, c :: cs)
  | [] => some (none, [])

/-- The numeral at the front of a text, and the text after it: digits without a leading zero, then
an optional fraction and an optional power of ten, all behind an optional minus sign. -/
def Numeral.read? (cs : List Char) : Option (Numeral × List Char) := do
  let (negative, cs) := match cs with
    | '-' :: cs => (true, cs)
    | cs => (false, cs)
  let (units, cs) := spanDigits cs
  if units.isEmpty ∨ (1 < units.length ∧ units.head? = some '0') then none
  let (places, cs) ← fraction? cs
  let (power, cs) ← power? cs
  some (⟨negative, units, places, power⟩, cs)

/-- The numeral of a text in the free form: digits with a point before, among or behind them, or
without one, and an optional power of ten. -/
def Numeral.ofFreeForm? (negative : Bool) (cs : List Char) : Option Numeral := do
  let (units, cs) := spanDigits cs
  let (places, cs) := match cs with
    | '.' :: cs => let (digits, cs) := spanDigits cs; (some digits, cs)
    | cs => (none, cs)
  if units.isEmpty ∧ (places.getD []).isEmpty then none
  let (power, cs) ← power? cs
  if cs.isEmpty then some ⟨negative, units, places, power⟩ else none

end Decimal

/-- The floating point number of a text: behind an optional sign a numeral in the free form, which
stands for the number nearest to it, or a word in letters of either case. -/
def Binary64.ofText? (s : String) : Option Binary64 :=
  let (negative, cs) := match s.toList with
    | '-' :: cs => (true, cs)
    | '+' :: cs => (false, cs)
    | cs => (false, cs)
  match String.ofList (cs.map Char.toLower) with
  | "nan" => some (.nan negative)
  | "inf" | "infinity" => some (.infinity negative)
  | _ => (Decimal.Numeral.ofFreeForm? negative cs).map fun n =>
    n.nearest?.getD (.infinity negative)

end PersistenceQuery
