import PersistenceQuery.Decimal.Binary64

/-!
# The shortest decimal of a floating point number

The real numbers that round to a finite floating point number form an interval around it.  Among
the decimals in that interval the shortest are those on the coarsest decimal grid that meets it,
and of those the one nearest to the number is chosen.

## Main definitions

* `Decimal` — `digits * 10 ^ exponent`.
* `Binary64.Rounding` — the interval, as multiples of a quarter of the last binary place.
* `Binary64.shortest tie x` — the shortest decimal that reads back as the magnitude of `x`.
-/

namespace PersistenceQuery

/-- The decimal number `digits * 10 ^ exponent`. -/
structure Decimal where
  digits : Nat
  exponent : Int
  deriving DecidableEq

namespace Binary64

/-- Which of two grid points is taken when the number lies halfway between them. -/
inductive Tie
  /-- The greater one. -/
  | up
  /-- The one with the even last digit. -/
  | toEven
  deriving DecidableEq

/-- The numbers that round to a magnitude, in units of `2 ^ unit`: from `low` to `high`, with the
ends if `closed`. -/
structure Rounding where
  low : Nat
  value : Nat
  high : Nat
  unit : Int
  closed : Bool

/-- The interval of `x`: half a place to either side, a quarter below a power of two, where the
numbers underneath lie twice as close.  The ends round to the even significand. -/
def rounding (x : Binary64) : Rounding where
  low := if x.significand = leadingBit ∧ 1 < x.exponentField
    then 4 * x.significand - 1 else 4 * x.significand - 2
  value := 4 * x.significand
  high := 4 * x.significand + 2
  unit := x.scale - 2
  closed := x.significand % 2 = 0

/-- The point of the grid of multiples of `10 ^ k` that is in the interval and nearest to its
value, as a multiple of `10 ^ k`. -/
def Rounding.onGrid? (tie : Tie) (r : Rounding) (k : Int) : Option Nat :=
  let factor := scaled 10 (scaled 2 1 r.unit) (-k)
  let step := scaled 10 (scaled 2 1 (-r.unit)) k
  let value := r.value * factor
  let inside (point : Nat) : Bool :=
    let p := point * step
    if r.closed then r.low * factor ≤ p && p ≤ r.high * factor
    else r.low * factor < p && p < r.high * factor
  let below := value / step
  let gap := 2 * (value % step)
  let preferBelow := gap < step || (gap == step && tie == .toEven && below % 2 == 0)
  match inside below, inside (below + 1) with
  | true, true => some (if preferBelow then below else below + 1)
  | true, false => some below
  | false, true => some (below + 1)
  | false, false => none

/-- The first grid that meets the interval, from the multiples of `10 ^ k` on to finer ones. -/
def Rounding.search (tie : Tie) (r : Rounding) : Nat → Int → Option Decimal
  | 0, _ => none
  | tries + 1, k =>
    match r.onGrid? tie k with
    | some digits => some ⟨digits, k⟩
    | none => Rounding.search tie r tries (k - 1)

/-- A power of ten above the magnitude of `x`: `30103 / 100000` is a bound on the logarithm of
two, and the number has `log2 significand + 1` bits above its scale. -/
def ceilingExponent (x : Binary64) : Int :=
  ((x.significand.log2 : Int) + x.scale + 1) * 30103 / 100000 + 2

/-- The shortest decimal that rounds to the magnitude of `x`, the nearest to it of those with as
few digits.  Seventeen digits always suffice, so twenty-four grids are enough. -/
def shortest (tie : Tie) (x : Binary64) : Decimal :=
  if x.significand = 0 then ⟨0, 0⟩
  else (x.rounding.search tie 24 x.ceilingExponent).getD ⟨0, 0⟩

end Binary64
end PersistenceQuery
