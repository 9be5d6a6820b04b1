/-!
# Binary floating point numbers of 64 bits

The numbers of the IEEE 754 format `binary64`, as a sign and a magnitude.  The magnitude holds the
exponent field above the 52 bits of the fraction, so greater magnitudes are greater numbers, and
the numbers next to a finite one are those next to its magnitude.

## Main definitions

* `Binary64`, `Binary64.significand`, `Binary64.scale` — a finite number is
  `± significand * 2 ^ scale`.
* `Binary64.ofRatio`, `Binary64.ofDecimal` — the number nearest to a fraction, or to
  `mantissa * 10 ^ exponent`; a tie goes to the even significand, and a value past the greatest
  finite number has no nearest one.
* `Binary64.ofInt` — the number nearest to an integer.
* `Binary64.mul`, `Binary64.div` — the product and the quotient of finite numbers.
-/

namespace PersistenceQuery

/-- `n * base ^ e`, and `n` itself where the exponent is negative. -/
def scaled (base n : Nat) (e : Int) : Nat := n * Nat.pow base e.toNat

/-- A floating point number: its sign, and the exponent field and fraction read as one number. -/
structure Binary64 where
  negative : Bool
  magnitude : Nat
  magnitude_lt : magnitude < Nat.pow 2 63
  deriving DecidableEq

namespace Binary64

/-- The bit above the fraction. -/
def leadingBit : Nat := Nat.pow 2 52

/-- The least magnitude that is not a finite number: all bits of the exponent set. -/
def infiniteMagnitude : Nat := 2047 * leadingBit

/-- Zero, with a sign. -/
def zero (negative : Bool) : Binary64 := ⟨negative, 0, by decide⟩

/-- Infinity, with a sign. -/
def infinity (negative : Bool) : Binary64 := ⟨negative, infiniteMagnitude, by decide⟩

/-- The value that is not a number.  It has a sign too, which its text does not show. -/
def nan (negative : Bool) : Binary64 :=
  ⟨negative, infiniteMagnitude + leadingBit / 2, by decide⟩

/-- Neither infinite nor the absence of a number. -/
def isFinite (x : Binary64) : Bool := x.magnitude < infiniteMagnitude

/-- Not a number: a fraction behind the exponent of infinity. -/
def isNaN (x : Binary64) : Bool := infiniteMagnitude < x.magnitude

/-- The bits of the exponent, `0` for zero and the subnormal numbers. -/
def exponentField (x : Binary64) : Nat := x.magnitude / leadingBit

/-- The integer that a power of two multiplies: the fraction, below the leading bit that only
subnormal numbers lack. -/
def significand (x : Binary64) : Nat :=
  if x.exponentField = 0 then x.magnitude else x.magnitude % leadingBit + leadingBit

/-- The power of two that multiplies the significand. -/
def scale (x : Binary64) : Int := max x.exponentField 1 - 1075

/-! ### Rounding -/

/-- The integer nearest to `num / den`, the even one of two. -/
def roundQuotient (num den : Nat) : Nat :=
  let whole := num / den
  let rest := num % den
  if 2 * rest < den ∨ (2 * rest = den ∧ whole % 2 = 0) then whole else whole + 1

/-- The power of two for the significand of `num / den`: the one that leaves 53 bits, but none
below the least there is. -/
def scaleFor (num den : Nat) : Int :=
  let e : Int := (num.log2 : Int) - den.log2
  let reaches := scaled 2 den e ≤ scaled 2 num (-e)
  max (if reaches then e - 52 else e - 53) (-1074)

/-- The number nearest to `num / den`, unless it is past the greatest finite one. -/
def ofRatio (negative : Bool) (num den : Nat) : Option Binary64 :=
  if num = 0 then some (zero negative)
  else
    let q := scaleFor num den
    let m := roundQuotient (scaled 2 num (-q)) (scaled 2 den q)
    let magnitude := (q + 1074).toNat * leadingBit + m
    if h : magnitude < infiniteMagnitude then
      some ⟨negative, magnitude, Nat.lt_trans h (by decide)⟩
    else none

/-- The number nearest to `mantissa * 10 ^ exponent`, unless it is past the greatest finite one.
Values with their first digit far outside the range are settled before any power is taken. -/
def ofDecimal (negative : Bool) (mantissa : Nat) (exponent : Int) : Option Binary64 :=
  let top : Int := (Nat.toDigits 10 mantissa).length + exponent
  if mantissa = 0 ∨ top < -330 then some (zero negative)
  else if 310 < top then none
  else ofRatio negative (scaled 10 mantissa exponent) (scaled 10 1 (-exponent))

/-- The number nearest to an integer. -/
def ofInt (n : Int) : Option Binary64 := ofDecimal (n < 0) n.natAbs 0

/-! ### Arithmetic -/

/-- The number nearest to `significand * 2 ^ scale / divisor`, infinity where that is past the
greatest finite one. -/
def ofScaled (negative : Bool) (significand : Nat) (scale : Int) (divisor : Nat) : Binary64 :=
  (ofRatio negative (scaled 2 significand scale) (scaled 2 divisor (-scale))).getD
    (infinity negative)

/-- The product of two finite numbers, rounded. -/
def mul (x y : Binary64) : Binary64 :=
  ofScaled (x.negative != y.negative) (x.significand * y.significand) (x.scale + y.scale) 1

/-- The quotient of two finite numbers, the second not zero, rounded. -/
def div (x y : Binary64) : Binary64 :=
  ofScaled (x.negative != y.negative) x.significand (x.scale - y.scale) y.significand

end Binary64
end PersistenceQuery
