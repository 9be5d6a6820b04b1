import PersistenceQuery.Decimal.Shortest
import PersistenceQuery.Text.Digits

/-!
# Floating point numbers as text

How the shortest decimal of a number is laid out is a matter of the text it stands in.  A `Layout`
holds the choices: which numbers are written without an exponent, and whether a whole number shows
a fraction of zero.

## Main definitions

* `Layout`, `Layout.write` — the choices, and the text they give.
* `Layout.plain` — no exponent, whole numbers without a point.
* `Layout.exchange` — the layout of numbers in JSON text.
-/

namespace PersistenceQuery
namespace Decimal

open Text

/-- The choices that turn a decimal into text. -/
structure Layout where
  /-- The neighbour chosen when the number is halfway between two shortest decimals. -/
  tie : Binary64.Tie
  /-- Whether a number whose first digit counts `10 ^ x` is written without an exponent. -/
  positional : Int → Bool
  /-- Whether a whole number ends in `.0`. -/
  pointZero : Bool

/-- The decimal with all its places written out. -/
def positionalText (pointZero : Bool) (d : Decimal) : List Char :=
  let digits := decimal d.digits
  if 0 ≤ d.exponent then
    digits ++ List.replicate d.exponent.toNat '0' ++ (if pointZero then ['.', '0'] else [])
  else
    let places := (-d.exponent).toNat
    let padded := List.replicate (places + 1 - digits.length) '0' ++ digits
    padded.take (padded.length - places) ++ '.' :: padded.drop (padded.length - places)

/-- One digit, the others after a point, and the exponent with its sign. -/
def scientificText (d : Decimal) : List Char :=
  let digits := decimal d.digits
  let x : Int := (digits.length : Int) - 1 + d.exponent
  let fraction := match digits.drop 1 with
    | [] => []
    | rest => '.' :: rest
  digits.take 1 ++ fraction ++ 'e' :: (if x < 0 then '-' else '+') :: decimal x.natAbs

/-- The text of a number: its sign, and its shortest decimal laid out. -/
def Layout.write (l : Layout) (x : Binary64) : List Char :=
  let unsigned :=
    if x.isNaN then "NaN".toList
    else if !x.isFinite then "inf".toList
    else
      let d := x.shortest l.tie
      if l.positional ((decimal d.digits).length - 1 + d.exponent)
      then positionalText l.pointZero d else scientificText d
  if x.negative && !x.isNaN then '-' :: unsigned else unsigned

/-- All places written out, a whole number without a point; halfway cases go up. -/
def Layout.plain : Layout := ⟨.up, fun _ => true, false⟩

/-- All places written out from five zeros behind the point to sixteen digits before it, always
with a fraction; an exponent outside that range. -/
def Layout.exchange : Layout := ⟨.toEven, fun x => -5 ≤ x && x ≤ 15, true⟩

end Decimal
end PersistenceQuery
