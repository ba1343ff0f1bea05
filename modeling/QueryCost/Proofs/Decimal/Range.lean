/-
# QueryCost.Proofs.Decimal.Range -- numerals come to finite doubles

The digits of a numeral are gathered in a word of 64 bits, and a word is a finite double.
It is scaled by powers of ten.  A product is only taken if it is finite, and a quotient is
finite because no positive power of ten among the doubles is less than two
(`two_le_powerOfTen`).  So a numeral comes to a finite double or to none at all.
-/
import QueryCost.Decimal.Stepwise
import QueryCost.Proofs.Double.Range

namespace QueryCost.Decimal

open QueryCost.Double

set_option autoImplicit false

/-! ## Powers of ten -/

/-- Above the powers of ten that are made by a product, the counts of powers are rounded, which
keeps their order. -/
theorem count_powerOfTen_bounds {k : Nat} (long : 22 < k) (small : k ≤ largestExponent) :
    count 2.0 ≤ count (powerOfTen k) ∧
      count (powerOfTen k) ≤ count (powerOfTen largestExponent) := by
  have counts {j : Nat} (long : 22 < j) (small : j ≤ largestExponent) :
      count (powerOfTen j) = rounded (1 * unitsOfOne * 10 ^ j : Nat) :=
    count_ofScientific (by decide) (small.trans (by decide)) (by omega)
  have two : count 2.0 = (2 * unitsOfOne : Nat) := by
    have halved : 2 ^ 52 * 2 ^ ((-51 : Int) + 1074).toNat = 2 * unitsOfOne := by decide +kernel
    have two : value 2.0 = .finite .positive (2 ^ 52) (-51) (Nat.two_pow_pos 52) := rfl
    rw [count, two, units_finite, halved]
  have least : 2 * unitsOfOne ≤ 1 * unitsOfOne * 10 ^ k := by
    have ten : 10 ^ 1 ≤ 10 ^ k := Nat.pow_le_pow_right (by decide) (by omega)
    rw [Nat.one_mul, Nat.mul_comm]
    exact Nat.mul_le_mul_left _ (Nat.le_trans (by decide) ten)
  have greatest : 1 * unitsOfOne * 10 ^ k ≤ 1 * unitsOfOne * 10 ^ largestExponent :=
    Nat.mul_le_mul_left _ (Nat.pow_le_pow_right (by decide) small)
  constructor
  · rw [← rounded_count 2.0, two, counts long small]
    exact rounded_le_rounded (Nat.cast_le.2 least)
  · rw [counts long small, counts (by decide) (Nat.le_refl _)]
    exact rounded_le_rounded (Nat.cast_le.2 greatest)

theorem two_le_powerOfTen {k : Nat} (pos : 0 < k) (small : k ≤ largestExponent) :
    2.0 ≤ powerOfTen k ∧ (powerOfTen k).isFinite = true := by
  rcases Nat.lt_or_ge 22 k with long | short
  · obtain ⟨least, greatest⟩ := count_powerOfTen_bounds long small
    have top : count (powerOfTen largestExponent) ≠ ⊤ :=
      (isFinite_iff_count _).1 (by decide +kernel)
    have finite : (powerOfTen k).isFinite = true :=
      (isFinite_iff_count _).2 (ne_top_of_le_ne_top top greatest)
    have nonneg : 0.0 ≤ powerOfTen k :=
      zero_le_ofScientific (by decide) (small.trans (by decide)) (by omega)
    have nonneg' : 0.0 ≤ (2.0 : Float) := by decide +kernel
    refine ⟨?_, finite⟩
    rw [← not_lt_iff_le (isNaN_eq_false_of_nonneg nonneg') (isNaN_eq_false_of_nonneg nonneg),
      lt_iff_count nonneg nonneg']
    exact not_lt.2 least
  · have each : ∀ j ∈ List.range 23, 0 < j →
        2.0 ≤ powerOfTen j ∧ (powerOfTen j).isFinite = true := by decide +kernel
    exact each k (List.mem_range.2 (by omega)) pos

/-! ## Scaling -/

theorem isFinite_of_scale? {x y : Float} {exponent : Int} (finite : x.isFinite = true)
    (scaled : scale? x exponent = some y) : y.isFinite = true := by
  fun_induction scale? x exponent with
  | case1 x exponent small nonneg product bounded =>
      rw [← Option.some.inj scaled]
      exact bounded
  | case2 => cases scaled
  | case3 x exponent small negative =>
      obtain ⟨two, finite'⟩ := two_le_powerOfTen (k := exponent.natAbs) (by omega) small
      cases scaled
      exact isFinite_div finite finite' two
  | case4 =>
      cases scaled
      exact finite
  | case5 => cases scaled
  | case6 x exponent great other negative ih =>
      obtain ⟨two, finite'⟩ := two_le_powerOfTen (k := largestExponent) (by decide) (Nat.le_refl _)
      exact ih (isFinite_div finite finite' two) scaled

/-- **A numeral comes to a finite double or to none.** -/
theorem Numeral.isFinite_of_stepwise? {n : Numeral} {x : Float} (comes : n.stepwise? = some x) :
    x.isFinite = true := by
  have word : n.scaled.word < UInt64.size :=
    gather_fst_lt (gather_fst_lt (by decide) n.whole) n.fraction
  obtain ⟨y, scaled, rfl⟩ := Option.map_eq_some_iff.1 comes
  have finite : y.isFinite = true := isFinite_of_scale? (isFinite_ofWord word) scaled
  split
  · exact isFinite_neg finite
  · exact finite

end QueryCost.Decimal
