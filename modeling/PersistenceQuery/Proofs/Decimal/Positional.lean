import PersistenceQuery.Binding.Literal
import PersistenceQuery.Proofs.Calendar.Reading
import PersistenceQuery.Proofs.Decimal.Rounding

/-!
# Literals of floating point numbers

The literal of a finite number has digits before a point and behind it, and all of them together
count by the places behind the point.  So it shows one decimal number, which is that of the shortest
decimal, and the sign is in front of it: the literal determines the number.

## Main definitions

* `Decimal.Shows` — a text with a point in it shows a number.
* `Decimal.pointed` — the text of a decimal with a point in any case.

## Main results

* `Decimal.Shows.unique` — a text shows one number.
* `Decimal.shows_pointed` — the text of a decimal shows it.
* `Binary64.eq_of_floatLiteral` — finite numbers with one literal are equal.
-/

namespace PersistenceQuery

open Text

/-- A minus sign in front of a text that has none determines both. -/
theorem minus_append_inj {a b : Bool} {cs ds : List Char} (hcs : '-' ∉ cs) (hds : '-' ∉ ds)
    (h : (if a then ['-'] else []) ++ cs = (if b then ['-'] else []) ++ ds) : a = b ∧ cs = ds := by
  have hsign : a = b := by
    have hminus := congrArg (fun text => decide ('-' ∈ text)) h
    simp only [List.mem_append, hcs, hds, or_false] at hminus
    cases a <;> cases b <;> simp at hminus ⊢
  subst hsign
  exact ⟨rfl, List.append_cancel_left h⟩

namespace Decimal

/-! ### Digits around a point -/

/-- The text is a number of digits with a point among them, which together count by the places
behind the point. -/
def Shows (cs : List Char) (q : ℚ) : Prop :=
  ∃ units places, units.all Char.isDigit = true ∧ places.all Char.isDigit = true
    ∧ cs = units ++ '.' :: places ∧ (valueOf (units ++ places) : ℚ) = q * 10 ^ places.length

theorem minus_notMem_of_digits {cs : List Char} (h : cs.all Char.isDigit = true) : '-' ∉ cs :=
  fun hmem => absurd (List.all_eq_true.1 h _ hmem) (by decide)

theorem point_notMem_of_digits {cs : List Char} (h : cs.all Char.isDigit = true) : '.' ∉ cs :=
  fun hmem => absurd (List.all_eq_true.1 h _ hmem) (by decide)

/-- There is one point in the text, so it shows one number. -/
theorem Shows.unique {cs : List Char} {q q' : ℚ} (h : Shows cs q) (h' : Shows cs q') : q = q' := by
  obtain ⟨units, places, hunits, hplaces, rfl, hvalue⟩ := h
  obtain ⟨units', places', -, -, hcs, hvalue'⟩ := h'
  obtain ⟨rfl, -, rfl⟩ := (List.append_cons_inj_of_notMem (point_notMem_of_digits hunits)
    (point_notMem_of_digits hplaces)).1 hcs
  rw [hvalue] at hvalue'
  exact mul_right_cancel₀ (by positivity) hvalue'

theorem digits_decimal (n : Nat) : (decimal n).all Char.isDigit = true :=
  List.all_eq_true.2 fun _ hc => Nat.isDigit_of_mem_toDigits (by decide) (by decide) hc

theorem digits_zeros (n : Nat) : (List.replicate n '0').all Char.isDigit = true :=
  List.all_eq_true.2 fun _ hc => (List.eq_of_mem_replicate hc) ▸ rfl

/-- Zeros behind digits multiply by ten. -/
theorem valueOf_append_zeros (cs : List Char) (n : Nat) :
    valueOf (cs ++ List.replicate n '0') = valueOf cs * 10 ^ n := by
  rw [valueOf, Nat.ofDigitChars_append, Nat.ofDigitChars_replicate_zero, Nat.mul_comm]
  rfl

/-! ### The text of a decimal -/

/-- The text of a decimal, with a zero behind a point where there is no point in it. -/
def pointed (d : Decimal) : List Char :=
  if (positionalText false d).contains '.' then positionalText false d
  else positionalText false d ++ ['.', '0']

theorem pointed_of_nonneg {d : Decimal} (h : 0 ≤ d.exponent) :
    d.pointed = (decimal d.digits ++ List.replicate d.exponent.toNat '0') ++ '.' :: ['0'] := by
  have htext : positionalText false d
      = decimal d.digits ++ List.replicate d.exponent.toNat '0' := by
    simp [positionalText, h]
  have hpoint : '.' ∉ positionalText false d := by
    rw [htext, List.mem_append, not_or]
    exact ⟨point_notMem_of_digits (digits_decimal _), point_notMem_of_digits (digits_zeros _)⟩
  rw [pointed, if_neg (by simpa using hpoint), htext]

theorem pointed_of_neg {d : Decimal} (h : ¬ 0 ≤ d.exponent) :
    d.pointed = positionalText false d := by
  have hpoint : '.' ∈ positionalText false d := by simp [positionalText, h]
  rw [pointed, if_pos (by simpa using hpoint)]

/-- The text of a decimal shows it. -/
theorem shows_pointed (d : Decimal) : Shows d.pointed d.value := by
  by_cases h : 0 ≤ d.exponent
  · refine ⟨_, _, ?_, rfl, pointed_of_nonneg h, ?_⟩
    · rw [List.all_append, digits_decimal, digits_zeros]
      rfl
    · have hzeros : List.replicate d.exponent.toNat '0' ++ ['0']
          = List.replicate (d.exponent.toNat + 1) '0' := (List.replicate_succ' ..).symm
      have hpower : (10 : ℚ) ^ d.exponent = 10 ^ d.exponent.toNat := by
        rw [← zpow_natCast, Int.toNat_of_nonneg h]
      rw [List.append_assoc, hzeros, valueOf_append_zeros, valueOf_decimal, value, hpower,
        List.length_singleton]
      push_cast
      ring
  · -- as many zeros in front that the point has a digit before it
    obtain ⟨n, hn⟩ : ∃ n : Nat, d.exponent = -(n : Int) := ⟨(-d.exponent).toNat, by omega⟩
    have htext : positionalText false d
        = (padded (n + 1) d.digits).take ((padded (n + 1) d.digits).length - n)
          ++ '.' :: (padded (n + 1) d.digits).drop ((padded (n + 1) d.digits).length - n) := by
      have hplaces : (-d.exponent).toNat = n := by omega
      rw [positionalText, if_neg h, hplaces]
      rfl
    have hdigits : (padded (n + 1) d.digits).all Char.isDigit = true := by
      rw [padded, List.all_append, digits_zeros, digits_decimal]
      rfl
    have hlength : n ≤ (padded (n + 1) d.digits).length := by
      rw [padded, List.length_append, List.length_replicate]
      omega
    rw [← List.take_append_drop ((padded (n + 1) d.digits).length - n) (padded (n + 1) d.digits),
      List.all_append, Bool.and_eq_true] at hdigits
    refine ⟨_, _, hdigits.1, hdigits.2, (pointed_of_neg h).trans htext, ?_⟩
    rw [List.take_append_drop, valueOf_padded, List.length_drop, Nat.sub_sub_self hlength, value,
      hn, zpow_neg, zpow_natCast, mul_assoc, inv_mul_cancel₀ (by positivity), mul_one]

end Decimal

/-! ### Literals -/

namespace Binary64

variable {x y : Binary64}

/-- The literal of a finite number is its shortest decimal behind its sign. -/
theorem floatLiteral_eq (h : x.isFinite = true) :
    floatLiteral x = (if x.negative then ['-'] else []) ++ (x.shortest .up).pointed := by
  have hnan : x.isNaN = false := by
    rw [isFinite, decide_eq_true_eq] at h
    exact decide_eq_false (Nat.lt_asymm h)
  have hwrite : Decimal.Layout.plain.write x
      = (if x.negative then ['-'] else []) ++ Decimal.positionalText false (x.shortest .up) := by
    cases hneg : x.negative <;>
      simp [Decimal.Layout.write, Decimal.Layout.plain, hnan, h, hneg]
  rw [floatLiteral, hwrite, Decimal.pointed]
  have hcontains : ((if x.negative then ['-'] else [])
      ++ Decimal.positionalText false (x.shortest .up)).contains '.'
        = (Decimal.positionalText false (x.shortest .up)).contains '.' := by
    cases x.negative <;> simp
  rw [hcontains]
  split
  · rfl
  · rw [List.append_assoc]

theorem minus_notMem_pointed (d : Decimal) : '-' ∉ d.pointed := by
  obtain ⟨units, places, hunits, hplaces, htext, -⟩ := d.shows_pointed
  rw [htext, List.mem_append, List.mem_cons, not_or, not_or]
  exact ⟨Decimal.minus_notMem_of_digits hunits, by decide,
    Decimal.minus_notMem_of_digits hplaces⟩

/-- Finite numbers with one literal are equal. -/
theorem eq_of_floatLiteral (hx : x.isFinite = true) (hy : y.isFinite = true)
    (h : floatLiteral x = floatLiteral y) : x = y := by
  rw [floatLiteral_eq hx, floatLiteral_eq hy] at h
  obtain ⟨hsign, htext⟩ := minus_append_inj (minus_notMem_pointed _) (minus_notMem_pointed _) h
  have hshown := (x.shortest .up).shows_pointed
  rw [htext] at hshown
  have hmagnitude := magnitude_eq_of_shortest (hshown.unique (y.shortest .up).shows_pointed)
  obtain ⟨negative, magnitude, hlt⟩ := x
  obtain ⟨negative', magnitude', hlt'⟩ := y
  obtain rfl : negative = negative' := hsign
  obtain rfl : magnitude = magnitude' := hmagnitude
  rfl

end Binary64
end PersistenceQuery
