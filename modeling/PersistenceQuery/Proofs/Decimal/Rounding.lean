import Mathlib.Algebra.Field.Rat
import Mathlib.Algebra.Order.Field.Power
import Mathlib.Algebra.Order.Ring.Rat
import Mathlib.Tactic.Linarith
import Mathlib.Tactic.Positivity
import Mathlib.Tactic.Ring
import PersistenceQuery.Decimal.Shortest

/-!
# The numbers that round to a floating point number

The intervals of two magnitudes that follow one another touch at the midpoint between them, which
belongs to the one with the even significand.  So no number is in two of them.  Twenty-four decimal
grids reach from above a number to below half its last binary place, so the search for its shortest
decimal ends, and the decimal that it finds is in the interval of the number alone.

## Main definitions

* `Decimal.value` — the number that a decimal stands for.
* `Binary64.Rounding.Contains` — the numbers of an interval.
* `Binary64.midpoint` — the end that the intervals of two magnitudes share.

## Main results

* `Binary64.magnitude_eq_of_contains` — a number rounds to one magnitude only.
* `Binary64.contains_shortest` — the shortest decimal of a number rounds to it.
* `Binary64.magnitude_eq_of_shortest` — magnitudes with shortest decimals of one value are equal.
-/

namespace PersistenceQuery

/-- The number that a decimal stands for. -/
def Decimal.value (d : Decimal) : ℚ := d.digits * 10 ^ d.exponent

namespace Binary64

/-! ### Powers -/

/-- A power with the negative part of its exponent on the other side. -/
theorem zpow_mul_pow_neg {b : ℚ} (hb : b ≠ 0) (e : Int) :
    b ^ e * b ^ (-e).toNat = b ^ e.toNat := by
  rw [← zpow_natCast, ← zpow_natCast, ← zpow_add₀ hb]
  congr 1
  omega

/-- Ten is less than `2 ^ (10 / 3)` and greater than `2 ^ (33 / 10)`. -/
theorem ten_zpow_lt_two_zpow {a b : Int} (hpos : 10 * a < 3 * b) (hneg : 33 * a < 10 * b) :
    (10 : ℚ) ^ a < 2 ^ b := by
  rcases Int.le_total 0 a with ha | ha
  · obtain ⟨n, rfl⟩ := Int.eq_ofNat_of_zero_le ha
    have hcubes : ((10 : ℚ) ^ (n : Int)) ^ 3 < ((2 : ℚ) ^ b) ^ 3 := by
      calc ((10 : ℚ) ^ (n : Int)) ^ 3 = (10 ^ 3) ^ n := by rw [zpow_natCast, pow_right_comm]
        _ ≤ (2 ^ 10) ^ n := by gcongr; norm_num
        _ = 2 ^ ((10 * n : Int)) := by rw [← pow_mul, ← zpow_natCast]; norm_cast
        _ < 2 ^ (b * 3) := zpow_lt_zpow_right₀ (by norm_num) (by omega)
        _ = ((2 : ℚ) ^ b) ^ 3 := by rw [← zpow_natCast, ← zpow_mul]; rfl
    exact lt_of_pow_lt_pow_left₀ 3 (by positivity) hcubes
  · obtain ⟨n, hn⟩ := Int.eq_ofNat_of_zero_le (show 0 ≤ -a by omega)
    obtain rfl : a = -n := by omega
    have htenths : (((2 : ℚ) ^ (-b))) ^ 10 < ((10 : ℚ) ^ n) ^ 10 := by
      calc ((2 : ℚ) ^ (-b)) ^ 10 = 2 ^ (-b * 10) := by rw [← zpow_natCast, ← zpow_mul]; rfl
        _ < 2 ^ ((33 * n : Int)) := zpow_lt_zpow_right₀ (by norm_num) (by omega)
        _ = (2 ^ 33) ^ n := by rw [← pow_mul, ← zpow_natCast]; norm_cast
        _ ≤ (10 ^ 10) ^ n := by gcongr; norm_num
        _ = ((10 : ℚ) ^ n) ^ 10 := pow_right_comm _ _ _
    have hlt := lt_of_pow_lt_pow_left₀ 10 (by positivity) htenths
    rw [zpow_neg] at hlt
    rw [zpow_neg, zpow_natCast]
    exact inv_lt_of_inv_lt₀ (by positivity) hlt

/-! ### Points of a grid -/

namespace Rounding

variable {r : Rounding} {tie : Tie} {k : Int}

/-- The numbers of the interval. -/
def Contains (r : Rounding) (q : ℚ) : Prop :=
  if r.closed then r.low * 2 ^ r.unit ≤ q ∧ q ≤ r.high * 2 ^ r.unit
  else r.low * 2 ^ r.unit < q ∧ q < r.high * 2 ^ r.unit

theorem Contains.le {q : ℚ} (h : r.Contains q) :
    r.low * 2 ^ r.unit ≤ q ∧ q ≤ r.high * 2 ^ r.unit := by
  rw [Contains] at h
  split at h
  · exact h
  · exact ⟨h.1.le, h.2.le⟩

/-- The unit of an interval as a multiple of the common measure with a grid. -/
def factor (r : Rounding) (k : Int) : Nat := scaled 10 (scaled 2 1 r.unit) (-k)

/-- The step of a grid as a multiple of the common measure with an interval. -/
def step (r : Rounding) (k : Int) : Nat := scaled 10 (scaled 2 1 (-r.unit)) k

theorem factor_pos (r : Rounding) (k : Int) : 0 < r.factor k := by
  simp [factor, scaled]

theorem step_pos (r : Rounding) (k : Int) : 0 < r.step k := by
  simp [step, scaled]

theorem step_mul (r : Rounding) (k : Int) :
    (r.step k : ℚ) * 2 ^ r.unit = r.factor k * 10 ^ k := by
  have htwo := zpow_mul_pow_neg (show (2 : ℚ) ≠ 0 by norm_num) r.unit
  have hten := zpow_mul_pow_neg (show (10 : ℚ) ≠ 0 by norm_num) k
  simp only [step, factor, scaled, Nat.pow_eq, one_mul]
  push_cast
  rw [← htwo, ← hten]
  ring

/-- The unit and the step are as the powers of two and ten that they stand for. -/
theorem mul_factor_le_iff (r : Rounding) (k : Int) (n p : Nat) :
    (n * r.factor k ≤ p * r.step k ↔ (n : ℚ) * 2 ^ r.unit ≤ p * 10 ^ k)
      ∧ (p * r.step k ≤ n * r.factor k ↔ (p : ℚ) * 10 ^ k ≤ n * 2 ^ r.unit) := by
  have hfactor : (0 : ℚ) < r.factor k := by exact_mod_cast r.factor_pos k
  have hunit : (0 : ℚ) < 2 ^ r.unit := by positivity
  have hpoint : (p * r.step k : ℚ) * 2 ^ r.unit = r.factor k * (p * 10 ^ k) := by
    rw [mul_assoc, r.step_mul k]
    ring
  have hend : (n * r.factor k : ℚ) * 2 ^ r.unit = r.factor k * (n * 2 ^ r.unit) := by ring
  constructor
  · rw [← Nat.cast_le (α := ℚ), Nat.cast_mul, Nat.cast_mul, ← mul_le_mul_iff_left₀ hunit, hpoint,
      hend, mul_le_mul_iff_right₀ hfactor]
  · rw [← Nat.cast_le (α := ℚ), Nat.cast_mul, Nat.cast_mul, ← mul_le_mul_iff_left₀ hunit, hpoint,
      hend, mul_le_mul_iff_right₀ hfactor]

/-- The point of a grid is in the interval. -/
def inside (r : Rounding) (k : Int) (point : Nat) : Bool :=
  if r.closed then
    r.low * r.factor k ≤ point * r.step k && point * r.step k ≤ r.high * r.factor k
  else r.low * r.factor k < point * r.step k && point * r.step k < r.high * r.factor k

theorem inside_iff {point : Nat} :
    r.inside k point = true ↔ r.Contains (Decimal.value ⟨point, k⟩) := by
  obtain ⟨hlow, hlow'⟩ := r.mul_factor_le_iff k r.low point
  obtain ⟨hhigh', hhigh⟩ := r.mul_factor_le_iff k r.high point
  rw [inside, Contains, Decimal.value]
  split
  · rw [Bool.and_eq_true, decide_eq_true_eq, decide_eq_true_eq, hlow, hhigh]
  · rw [Bool.and_eq_true, decide_eq_true_eq, decide_eq_true_eq, ← not_le, ← not_le, hlow', hhigh',
      not_le, not_le]

/-- A point that is found on a grid is the multiple below the value or the next one, and it is in
the interval; where none is found, neither is. -/
theorem onGrid?_cases (tie : Tie) (r : Rounding) (k : Int) :
    (∃ p, r.onGrid? tie k = some p ∧ r.inside k p = true)
      ∨ (r.onGrid? tie k = none
        ∧ r.inside k (r.value * r.factor k / r.step k + 1) = false) := by
  rw [onGrid?]
  split
  · next hbelow habove =>
    split
    · exact .inl ⟨_, rfl, hbelow⟩
    · exact .inl ⟨_, rfl, habove⟩
  · next hbelow _ => exact .inl ⟨_, rfl, hbelow⟩
  · next _ habove => exact .inl ⟨_, rfl, habove⟩
  · next _ habove => exact .inr ⟨rfl, habove⟩

/-- A grid finer than the distance from the value to the upper end has a point in the interval. -/
theorem exists_onGrid? (hlow : r.low ≤ r.value) (hhigh : r.high = r.value + 2)
    (hk : (10 : ℚ) ^ k < 2 * 2 ^ r.unit) : ∃ p, r.onGrid? tie k = some p := by
  rcases r.onGrid?_cases tie k with ⟨p, hp, -⟩ | ⟨-, habove⟩
  · exact ⟨p, hp⟩
  exfalso
  have hstep : r.step k < 2 * r.factor k := by
    by_contra hle
    have h := (r.mul_factor_le_iff k 2 1).1.1 (by omega)
    rw [Nat.cast_ofNat, Nat.cast_one, one_mul] at h
    exact absurd hk (not_lt.2 h)
  have hdiv := Nat.div_add_mod (r.value * r.factor k) (r.step k)
  have hmod := Nat.mod_lt (r.value * r.factor k) (r.step_pos k)
  have hpoint : (r.value * r.factor k / r.step k + 1) * r.step k
      = r.step k * (r.value * r.factor k / r.step k) + r.step k := by ring
  have hlower : r.low * r.factor k ≤ r.value * r.factor k := Nat.mul_le_mul_right _ hlow
  have hupper : r.high * r.factor k = r.value * r.factor k + 2 * r.factor k := by
    rw [hhigh]
    ring
  have hinside : r.inside k (r.value * r.factor k / r.step k + 1) = true := by
    rw [inside, hpoint, hupper]
    split <;> rw [Bool.and_eq_true, decide_eq_true_eq, decide_eq_true_eq] <;> omega
  rw [hinside] at habove
  cases habove

/-- What the search finds is in the interval. -/
theorem contains_of_search {tries : Nat} {d : Decimal} (h : r.search tie tries k = some d) :
    r.Contains d.value := by
  induction tries generalizing k with
  | zero => cases h
  | succ tries ih =>
    rw [search] at h
    rcases r.onGrid?_cases tie k with ⟨p, hp, hinside⟩ | ⟨hnone, -⟩
    · rw [hp] at h
      cases h
      exact inside_iff.1 hinside
    · rw [hnone] at h
      exact ih h

/-- The search ends on a grid that meets the interval at the latest. -/
theorem exists_search (tries : Nat) (hp : ∃ p, r.onGrid? tie (k - tries) = some p) :
    ∃ d, r.search tie (tries + 1) k = some d := by
  induction tries generalizing k with
  | zero =>
    obtain ⟨p, hp⟩ := hp
    rw [Nat.cast_zero, Int.sub_zero] at hp
    rw [search, hp]
    exact ⟨_, rfl⟩
  | succ tries ih =>
    rw [search]
    cases hk : r.onGrid? tie k with
    | some p => exact ⟨_, rfl⟩
    | none =>
      refine ih ?_
      rwa [Int.sub_sub, Int.add_comm, ← Nat.cast_succ]

end Rounding

/-! ### Magnitudes that follow one another -/

/-- The significand of a magnitude. -/
def significandOf (m : Nat) : Nat := if m / leadingBit = 0 then m else m % leadingBit + leadingBit

/-- How many binary places the last one of a magnitude is above the least there is. -/
def placesOf (m : Nat) : Nat := max (m / leadingBit) 1 - 1

/-- The number halfway from a magnitude to the next one, in quarters of the least binary place. -/
def midpoint (m : Nat) : Nat := (4 * significandOf m + 2) * 2 ^ placesOf m

/-- The next magnitude has the next significand, or half of it in places twice as high. -/
theorem significandOf_succ (m : Nat) :
    (significandOf (m + 1) = significandOf m + 1 ∧ placesOf (m + 1) = placesOf m
        ∧ ¬ (significandOf (m + 1) = leadingBit ∧ 1 < (m + 1) / leadingBit))
      ∨ (significandOf m + 1 = 2 * leadingBit ∧ placesOf (m + 1) = placesOf m + 1
        ∧ significandOf (m + 1) = leadingBit ∧ 1 < (m + 1) / leadingBit) := by
  have hbit : leadingBit = 4503599627370496 := rfl
  simp only [significandOf, placesOf, hbit]
  split <;> split <;> omega

theorem midpoint_lt_succ (m : Nat) : midpoint m < midpoint (m + 1) := by
  have hpos : 0 < 2 ^ placesOf m := Nat.two_pow_pos _
  rw [midpoint, midpoint]
  rcases significandOf_succ m with ⟨hs, hp, -⟩ | ⟨hs, hp, hs', -⟩
  · rw [hs, hp]
    exact Nat.mul_lt_mul_of_pos_right (by omega) hpos
  · rw [hp, hs', Nat.pow_succ', ← Nat.mul_assoc]
    exact Nat.mul_lt_mul_of_pos_right (by omega) hpos

theorem midpoint_strictMono : StrictMono midpoint := strictMono_nat_of_lt_succ midpoint_lt_succ

/-- A quarter of the least binary place. -/
def leastQuarter : ℚ := 2 ^ (-1076 : Int)

theorem leastQuarter_pos : 0 < leastQuarter := zpow_pos (by norm_num) _

variable {x y : Binary64} {q : ℚ}

theorem zpow_unit (x : Binary64) :
    (2 : ℚ) ^ x.rounding.unit = 2 ^ placesOf x.magnitude * leastQuarter := by
  rw [leastQuarter, ← zpow_natCast, ← zpow_add₀ (by norm_num)]
  congr 1
  simp only [rounding, scale, exponentField, placesOf]
  omega

/-- The upper end of the interval of a number is the midpoint above it. -/
theorem high_mul (x : Binary64) :
    (x.rounding.high : ℚ) * 2 ^ x.rounding.unit = midpoint x.magnitude * leastQuarter := by
  have hhigh : x.rounding.high = 4 * significandOf x.magnitude + 2 := rfl
  rw [zpow_unit, ← mul_assoc, midpoint, hhigh]
  push_cast
  rfl

/-- The lower end of the interval of a number is the midpoint below it. -/
theorem low_mul (h : x.magnitude ≠ 0) :
    (x.rounding.low : ℚ) * 2 ^ x.rounding.unit
      = midpoint (x.magnitude - 1) * leastQuarter := by
  obtain ⟨m, hm⟩ := Nat.exists_eq_succ_of_ne_zero h
  have hlow : x.rounding.low = if significandOf x.magnitude = leadingBit
      ∧ 1 < x.magnitude / leadingBit then 4 * significandOf x.magnitude - 1
    else 4 * significandOf x.magnitude - 2 := rfl
  have hends : x.rounding.low * 2 ^ placesOf x.magnitude = midpoint m := by
    rw [hlow, hm, midpoint]
    rcases significandOf_succ m with ⟨hs, hp, hsame⟩ | ⟨hs, hp, hhalf⟩
    · rw [if_neg hsame, hs, hp]
      rfl
    · rw [if_pos hhalf, hhalf.1, hp, Nat.pow_succ', ← Nat.mul_assoc]
      congr 1
      omega
  rw [zpow_unit, ← mul_assoc, hm, Nat.succ_sub_one, ← hends, hm]
  push_cast
  rfl

/-- An end of the interval belongs to it if the magnitude is even. -/
theorem closed_iff (x : Binary64) : x.rounding.closed = true ↔ x.magnitude % 2 = 0 := by
  have hbit : leadingBit = 4503599627370496 := rfl
  have hsignificand : x.significand % 2 = x.magnitude % 2 := by
    rw [significand, exponentField, hbit]
    split <;> omega
  rw [← hsignificand]
  exact decide_eq_true_iff

/-- A number that rounds to two magnitudes would be a midpoint that belongs to an odd one. -/
theorem not_contains_of_lt (hx : x.rounding.Contains q) (hy : y.rounding.Contains q) :
    ¬ x.magnitude < y.magnitude := by
  intro hlt
  have hne : y.magnitude ≠ 0 := Nat.ne_of_gt (Nat.zero_lt_of_lt hlt)
  have hmid : midpoint x.magnitude ≤ midpoint (y.magnitude - 1) :=
    midpoint_strictMono.monotone (Nat.le_sub_one_of_lt hlt)
  have hmid' : (midpoint x.magnitude : ℚ) ≤ midpoint (y.magnitude - 1) := by exact_mod_cast hmid
  have hends : (midpoint x.magnitude : ℚ) * leastQuarter
      ≤ midpoint (y.magnitude - 1) * leastQuarter :=
    mul_le_mul_of_nonneg_right hmid' leastQuarter_pos.le
  have hhigh := x.high_mul
  have hlow := low_mul hne
  have hx' := hx.le
  have hy' := hy.le
  -- the number is the end that the intervals share
  have htouch : (midpoint x.magnitude : ℚ) = midpoint (y.magnitude - 1) :=
    mul_right_cancel₀ leastQuarter_pos.ne' (by linarith)
  have hnext : x.magnitude = y.magnitude - 1 :=
    midpoint_strictMono.injective (by exact_mod_cast htouch)
  rw [Rounding.Contains] at hx hy
  split at hx
  · next hclosed =>
    split at hy
    · next hclosed' =>
      rw [closed_iff] at hclosed hclosed'
      omega
    · linarith
  · linarith

/-- A number rounds to one magnitude only. -/
theorem magnitude_eq_of_contains (hx : x.rounding.Contains q) (hy : y.rounding.Contains q) :
    x.magnitude = y.magnitude :=
  Nat.le_antisymm (Nat.not_lt.1 (not_contains_of_lt hy hx))
    (Nat.not_lt.1 (not_contains_of_lt hx hy))

/-! ### Shortest decimals -/

theorem significand_lt (x : Binary64) : x.significand < 2 ^ 53 := by
  have hbit : leadingBit = 4503599627370496 := rfl
  rw [significand, exponentField, hbit]
  split <;> omega

theorem significand_eq_zero_iff : x.significand = 0 ↔ x.magnitude = 0 := by
  have hbit : leadingBit = 4503599627370496 := rfl
  rw [significand, exponentField, hbit]
  split <;> omega

/-- The finest grid of the search is finer than half the last binary place. -/
theorem ten_zpow_lt_unit (h : x.significand ≠ 0) :
    (10 : ℚ) ^ (x.ceilingExponent - (23 : Nat)) < 2 * 2 ^ x.rounding.unit := by
  have hlog : x.significand.log2 < 53 := (Nat.log2_lt h).2 x.significand_lt
  have hscale : x.scale ≤ 972 ∧ -1074 ≤ x.scale := by
    have hlt := x.magnitude_lt
    have hbit : leadingBit = 4503599627370496 := rfl
    have hbound : Nat.pow 2 63 = 9223372036854775808 := rfl
    rw [hbound] at hlt
    rw [scale, exponentField, hbit]
    omega
  have hunit : (2 : ℚ) * 2 ^ x.rounding.unit = 2 ^ (x.scale - 1) := by
    have hexponent : 1 + x.rounding.unit = x.scale - 1 := by
      simp only [rounding]
      omega
    rw [← zpow_one_add₀ (by norm_num), hexponent]
  rw [hunit, ceilingExponent]
  exact ten_zpow_lt_two_zpow (by omega) (by omega)

/-- The shortest decimal of a number other than zero rounds to it. -/
theorem contains_shortest (tie : Tie) (h : x.significand ≠ 0) :
    x.rounding.Contains (x.shortest tie).value := by
  have hlow : x.rounding.low ≤ x.rounding.value := by
    simp only [rounding]
    split <;> omega
  have hgrid : ∃ p, x.rounding.onGrid? tie (x.ceilingExponent - (23 : Nat)) = some p :=
    Rounding.exists_onGrid? hlow rfl (ten_zpow_lt_unit h)
  obtain ⟨d, hd⟩ := Rounding.exists_search 23 hgrid
  have hshortest : x.shortest tie = d := by
    rw [shortest, if_neg h, hd]
    rfl
  rw [hshortest]
  exact Rounding.contains_of_search hd

theorem value_shortest_eq_zero_iff (tie : Tie) :
    (x.shortest tie).value = 0 ↔ x.magnitude = 0 := by
  rw [← significand_eq_zero_iff]
  constructor
  · intro hzero
    by_contra h
    have hle := (contains_shortest tie h).le.1
    have hlow : 0 < x.rounding.low := by
      simp only [rounding]
      split <;> omega
    have hpos : (0 : ℚ) < x.rounding.low * 2 ^ x.rounding.unit := by positivity
    linarith
  · intro h
    rw [shortest, if_pos h, Decimal.value]
    norm_num

/-- Magnitudes with shortest decimals of one value are equal. -/
theorem magnitude_eq_of_shortest {tie : Tie}
    (h : (x.shortest tie).value = (y.shortest tie).value) : x.magnitude = y.magnitude := by
  by_cases hx : x.magnitude = 0
  · have hy := (value_shortest_eq_zero_iff tie).2 hx
    rw [h, value_shortest_eq_zero_iff] at hy
    rw [hx, hy]
  · have hy : y.magnitude ≠ 0 := by rwa [Ne, ← value_shortest_eq_zero_iff tie, ← h,
      value_shortest_eq_zero_iff]
    have hcontains := contains_shortest tie (mt significand_eq_zero_iff.1 hx)
    rw [h] at hcontains
    exact magnitude_eq_of_contains hcontains
      (contains_shortest tie (mt significand_eq_zero_iff.1 hy))

end Binary64
end PersistenceQuery
