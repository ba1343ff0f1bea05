/-
# QueryCost.Proofs.Double.Range -- doubles that stay finite

A value is packed as an infinity only if its exponent is too great.  Rounding lifts the
exponent by one at most, whatever is known of the digits behind a mantissa, so a value that
stays below the greatest double by a factor of two is rounded to a finite one
(`isFinite_roundWithAccuracy`).

Three operations are held to this: a negation, a quotient by two or more, which halves its
dividend at least, and the double of a decimal without a point, whose count is the rounded
count of the decimal (`count_ofScientific`).
-/
import QueryCost.Proofs.Double.Units

namespace QueryCost.Double

open Float.Model
open Float.Model.UnpackedFloat

set_option autoImplicit false

/-! ## Rounding -/

theorem isFinite_repacked_finite {s : Sign} {m : Nat} {e : Int} {pos : 0 < m} (small : e ≤ 971) :
    (repacked (.finite s m e pos)).isFinite = true := by
  rw [repacked, pack_finite, if_neg (by omega)]
  by_cases leading : m.log2 = 52
  · rw [if_pos leading, unpack_packComponents, isFinite_ofFields]
    exact ofNat_ne_full (by omega)
  · rw [if_neg leading, unpack_packComponents, isFinite_ofFields]
    decide

theorem mantissa_ofMantissaAndAccuracy (m : Nat) (a : Accuracy) :
    (ExtendedMantissa.ofMantissaAndAccuracy m a).mantissa = m := by
  cases a with
  | exact => rfl
  | inexact half => cases half <;> rfl

theorem isFinite_settled (s : Sign) {m : Nat} {e : Int} (low : e ≤ 971)
    (small : m.log2 + e ≤ 1023) : (repacked (settled s m e)).isFinite = true := by
  have exponent := roundingExponent_eq m e
  rw [settled]
  split
  · rw [repacked_zero]
    rfl
  · refine isFinite_repacked_finite ?_
    show e + ((roundingExponent m e - e).toNat : Int) ≤ 971
    omega

/-- The mantissa is divided by a power of two and may be rounded up. -/
theorem exists_settled (s : Sign) (m : Nat) (e : Int) (a : Accuracy) :
    ∃ q ≤ m / 2 ^ (roundingExponent m e - e).toNat + 1,
      roundWithAccuracy .binary64 s m e a =
        settled s q (e + (roundingExponent m e - e).toNat) := by
  have bounds := roundedMantissa_bounds
    ((ExtendedMantissa.ofMantissaAndAccuracy m a) >>> (roundingExponent m e - e).toNat)
  rw [mantissa_shiftRight, mantissa_ofMantissaAndAccuracy] at bounds
  exact ⟨_, bounds.2, rfl⟩

theorem div_two_pow_lt (m n : Nat) : m / 2 ^ n < 2 ^ (m.log2 + 1 - n) := by
  rw [Nat.div_lt_iff_lt_mul (Nat.two_pow_pos n), ← Nat.pow_add]
  exact Nat.lt_of_lt_of_le Nat.lt_log2_self (Nat.pow_le_pow_right Nat.zero_lt_two (by omega))

theorem log2_le_of_le_div {m n q : Nat} (le : q ≤ m / 2 ^ n + 1) : q.log2 ≤ m.log2 + 1 - n := by
  have quotient := div_two_pow_lt m n
  calc q.log2 ≤ (2 ^ (m.log2 + 1 - n)).log2 := log2_le_log2 (by omega)
    _ = m.log2 + 1 - n := Nat.log2_two_pow

/-- What is below the greatest double by a factor of two is rounded to a finite double. -/
theorem isFinite_roundWithAccuracy (s : Sign) {m : Nat} {e : Int} (a : Accuracy) (low : e ≤ 970)
    (small : m.log2 + e ≤ 1022) :
    (repacked (roundWithAccuracy .binary64 s m e a)).isFinite = true := by
  obtain ⟨q, le, rounds⟩ := exists_settled s m e a
  have digits := log2_le_of_le_div le
  have exponent := roundingExponent_eq m e
  rw [rounds]
  exact isFinite_settled s (by omega) (by omega)

/-! ## Negation -/

theorem value_neg (x : Float) : value (-x) = repacked (value x).neg := rfl

theorem isFinite_neg {x : Float} (finite : x.isFinite = true) : (-x).isFinite = true := by
  show (value (-x)).isFinite = true
  have fits := @fits_of_value x
  change (value x).isFinite = true at finite
  rw [value_neg]
  generalize value x = u at *
  cases u with
  | notANumber => cases finite
  | infinity s => cases finite
  | zero s =>
      rw [UnpackedFloat.neg, repacked_zero]
      rfl
  | finite s m e pos => exact isFinite_repacked_finite (fits rfl).highest

/-! ## Quotients -/

theorem value_div (x y : Float) :
    value (x / y) = repacked (UnpackedFloat.div .binary64 (value x) (value y)) := rfl

/-- The first digit of a double that is at least two stands in front of the point and another. -/
theorem exists_finite_of_two_le {y : Float} (finite : y.isFinite = true) (two : 2.0 ≤ y) :
    ∃ s m e pos, value y = .finite s m e pos ∧ m.log2 = 52 ∧ -51 ≤ e := by
  have least : value 2.0 = .finite .positive (2 ^ 52) (-51) (Nat.two_pow_pos 52) := rfl
  have fits := @fits_of_value y
  change (value y).isFinite = true at finite
  rw [le_iff, least] at two
  generalize value y = u at *
  cases u with
  | notANumber => cases finite
  | infinity s => cases finite
  | zero s => cases two
  | finite s m e pos =>
      cases s with
      | negative => cases two
      | positive =>
          have high : -51 ≤ e := by
            by_contra low
            have order : compare (-51) e = .gt := Int.compare_eq_gt.2 (by omega)
            change ((compare (-51) e).then (compare (2 ^ 52) m)).isLE = true at two
            rw [order] at two
            cases two
          exact ⟨_, m, e, pos, rfl, (fits rfl).leading.resolve_right (by omega), high⟩

theorem log2_div_le {m m' k : Nat} (long : k ≤ m'.log2) (pos : 0 < m') :
    (m / m').log2 ≤ m.log2 - k := by
  have divisor : 2 ^ k ≤ m' := (Nat.le_log2 (Nat.ne_of_gt pos)).1 long
  have below : m / m' < 2 ^ (m.log2 + 1 - k) :=
    Nat.lt_of_le_of_lt (Nat.div_le_div_left divisor (Nat.two_pow_pos k)) (div_two_pow_lt m k)
  by_cases zero : m / m' = 0
  · rw [zero, Nat.log2_zero]
    exact Nat.zero_le _
  · have digits := (Nat.log2_lt zero).2 below
    omega

/-- The quotient has no more digits in front of the point than the dividend, less one. -/
theorem isFinite_divCore (s : Sign) {m m' : Nat} {e e' : Int} (pos : 0 < m) (pos' : 0 < m')
    (fits : Fits m e) (leading : m'.log2 = 52) (high : -51 ≤ e') :
    (repacked (roundWithAccuracy .binary64 s (divCore .binary64 m e m' e').1
      (divCore .binary64 m e m' e').2.1 (divCore .binary64 m e m' e').2.2)).isFinite = true := by
  obtain ⟨digits, -, highest, -⟩ := fits
  have target : Format.binary64.targetExponent (totalExponent m e - totalExponent m' e') =
      max (m.log2 + e - m'.log2 - e' - 53) (-1074) := by
    have least : Format.binary64.minExponent = -1074 := by decide
    have places : Format.binary64.mantissaBits = 53 := rfl
    unfold Format.targetExponent totalExponent
    rw [least, places]
    omega
  have exponent : (divCore .binary64 m e m' e').2.1 =
      min (e - e') (max (m.log2 + e - m'.log2 - e' - 53) (-1074)) := by
    rw [← target]
    rfl
  have quotient : (divCore .binary64 m e m' e').1 =
      m * 2 ^ (e - e' - (divCore .binary64 m e m' e').2.1).toNat / m' := by
    rw [← Nat.shiftLeft_eq]
    rfl
  have dividend := log2_mul_two_pow (e - e' - (divCore .binary64 m e m' e').2.1).toNat pos
  have fewer := log2_div_le (m := m * 2 ^ (e - e' - (divCore .binary64 m e m' e').2.1).toNat)
    (Nat.le_of_eq leading.symm) pos'
  rw [← quotient, dividend] at fewer
  exact isFinite_roundWithAccuracy s _ (by omega) (by omega)

/-- A finite double is still finite when it is divided by one that is at least two. -/
theorem isFinite_div {x y : Float} (finite : x.isFinite = true) (finite' : y.isFinite = true)
    (two : 2.0 ≤ y) : (x / y).isFinite = true := by
  obtain ⟨s', m', e', pos', has', leading, high⟩ := exists_finite_of_two_le finite' two
  show (value (x / y)).isFinite = true
  have fits := @fits_of_value x
  change (value x).isFinite = true at finite
  rw [value_div, has']
  generalize value x = u at *
  cases u with
  | notANumber => cases finite
  | infinity s => cases finite
  | zero s =>
      rw [UnpackedFloat.div, repacked_zero]
      rfl
  | finite s m e pos => exact isFinite_divCore _ pos pos' (fits rfl) leading high

/-! ## Decimals without a point -/

/-- A decimal that is not made of a short mantissa and a low power is rounded once. -/
theorem value_ofScientific {m k : Nat} (nonzero : m ≠ 0) (few : k ≤ 2048)
    (long : ¬(m < 2 ^ 53 ∧ k ≤ 22)) :
    value (Float.ofScientific m false k) =
      repacked (roundWithAccuracy .binary64 .positive (m <<< 53 * 10 ^ k) (-53) .exact) := by
  have high : ¬ ((k : Int) > 2 ^ Format.binary64.exponentBits) := by
    have values : (2 : Int) ^ Format.binary64.exponentBits = 2048 := by decide
    rw [values]
    omega
  have low : ¬ ((k : Int) < -((2 ^ Format.binary64.exponentBits : Int) + m.log2)) := by
    have values : (2 : Int) ^ Format.binary64.exponentBits = 2048 := by decide
    rw [values]
    omega
  rw [Float.ofScientific, dif_neg long]
  show repacked (UnpackedFloat.ofScientific .binary64 m (k : Int)) = _
  rw [UnpackedFloat.ofScientific, dif_neg nonzero, if_neg high, if_neg low,
    if_pos (Int.natCast_nonneg k)]
  rfl

/-- The mantissa of such a decimal is formed with 53 digits behind the point, all of them zero. -/
theorem log2_shifted_mul {m k : Nat} (nonzero : m ≠ 0) :
    53 ≤ (m <<< 53 * 10 ^ k).log2 ∧ 0 < m <<< 53 * 10 ^ k := by
  have power : 0 < 10 ^ k := Nat.pow_pos (by decide)
  have longer : 2 ^ 53 ≤ m <<< 53 * 10 ^ k := by
    rw [Nat.shiftLeft_eq, Nat.mul_right_comm]
    exact Nat.le_mul_of_pos_left _ (Nat.mul_pos (Nat.pos_of_ne_zero nonzero) power)
  have pos : 0 < m <<< 53 * 10 ^ k := Nat.lt_of_lt_of_le (Nat.two_pow_pos 53) longer
  exact ⟨(Nat.le_log2 (Nat.ne_of_gt pos)).2 longer, pos⟩

/-- The count of such a double is the rounded count of the decimal. -/
theorem count_ofScientific {m k : Nat} (nonzero : m ≠ 0) (few : k ≤ 2048)
    (long : ¬(m < 2 ^ 53 ∧ k ≤ 22)) :
    count (Float.ofScientific m false k) = rounded (m * unitsOfOne * 10 ^ k : Nat) := by
  obtain ⟨digits, pos⟩ := log2_shifted_mul (k := k) nonzero
  have exponent := roundingExponent_eq (m <<< 53 * 10 ^ k) (-53)
  have ones := @count_of_lowered m 0 (-53) (by decide) (by decide)
  have steps : ((0 : Int) - -53).toNat = 53 := by decide
  rw [steps, ← unitsOfOne] at ones
  rw [count, value_ofScientific nonzero few long,
    units_roundWithAccuracy .positive pos (by omega) (by omega), Nat.mul_right_comm, ones]

theorem zero_le_ofScientific {m k : Nat} (nonzero : m ≠ 0) (few : k ≤ 2048)
    (long : ¬(m < 2 ^ 53 ∧ k ≤ 22)) : 0.0 ≤ Float.ofScientific m false k := by
  rw [zero_le_iff, value_ofScientific nonzero few long]
  exact (nonnegative_roundWithAccuracy _ _ _).repacked

/-- A natural number of 64 binary digits is made a finite double. -/
theorem isFinite_ofWord {n : Nat} (word : n < UInt64.size) : (Float.ofNat n).isFinite = true := by
  rcases Nat.lt_or_ge n (2 ^ 53) with small | great
  · exact isFinite_ofNat small
  · have pos : 0 < n := Nat.lt_of_lt_of_le (Nat.two_pow_pos 53) great
    have short : n.log2 < 64 := (Nat.log2_lt (Nat.ne_of_gt pos)).2 word
    have digits := log2_mul_two_pow 53 pos
    show (value (Float.ofScientific n false 0)).isFinite = true
    rw [value_ofScientific (Nat.ne_of_gt pos) (by decide) (by omega), Nat.pow_zero, Nat.mul_one,
      Nat.shiftLeft_eq]
    exact isFinite_roundWithAccuracy _ _ (by decide) (by omega)

end QueryCost.Double
