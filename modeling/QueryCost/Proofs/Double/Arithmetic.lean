/-
# QueryCost.Proofs.Double.Arithmetic -- sums and products of costs

What is not a number stays so under sums and products.  A sum of doubles that are at
least zero is at least zero, however great it grows.  A product of such doubles is
too, unless a zero meets an infinity: then it is no number.

A product of values that are at least one does not fall below one, and of values
that are at most one does not rise above one, whichever way it is rounded.
-/
import QueryCost.Proofs.Double.Order

namespace QueryCost.Double

open Float.Model
open Float.Model.UnpackedFloat

set_option autoImplicit false

/-! ## What is not a number -/

theorem add_notANumber (u : UnpackedFloat) :
    UnpackedFloat.add .binary64 .notANumber u = .notANumber ∧
      UnpackedFloat.add .binary64 u .notANumber = .notANumber := by
  cases u <;> exact ⟨rfl, rfl⟩

theorem mul_notANumber (u : UnpackedFloat) :
    UnpackedFloat.mul .binary64 .notANumber u = .notANumber ∧
      UnpackedFloat.mul .binary64 u .notANumber = .notANumber := by
  cases u <;> exact ⟨rfl, rfl⟩

theorem isNaN_add {x y : Float} (none : x.isNaN = true ∨ y.isNaN = true) :
    (x + y).isNaN = true := by
  simp only [isNaN_iff] at none ⊢
  rw [value_add]
  rcases none with none | none
  · rw [none, (add_notANumber _).1, repacked_notANumber]
  · rw [none, (add_notANumber _).2, repacked_notANumber]

theorem isNaN_mul {x : Float} (y : Float) (none : x.isNaN = true) : (x * y).isNaN = true := by
  simp only [isNaN_iff] at none ⊢
  rw [value_mul, none, (mul_notANumber _).1, repacked_notANumber]

/-! ## Sums and products of doubles that are at least zero -/

theorem Nonnegative.repacked {u : UnpackedFloat} (nonneg : Nonnegative u) :
    Nonnegative (repacked u) := by
  cases nonneg with
  | infinity =>
      rw [repacked_infinity]
      exact .infinity
  | zero s =>
      rw [repacked_zero]
      exact .zero s
  | finite m e pos =>
      rcases repacked_finite .positive m e pos with great | small | ⟨m', e', pos', finite⟩
      · rw [great]
        exact .infinity
      · rw [small]
        exact .zero .positive
      · rw [finite]
        exact .finite m' e' pos'

theorem nonnegative_roundWithAccuracy (m : Nat) (e : Int) (a : Accuracy) :
    Nonnegative (roundWithAccuracy .binary64 .positive m e a) := by
  unfold roundWithAccuracy
  dsimp only
  split
  · exact .zero .positive
  · exact .finite _ _ _

theorem nonnegative_normalize {m : Int} (e : Int) (nonneg : 0 ≤ m) :
    Nonnegative (UnpackedFloat.normalize .binary64 m e .positive) := by
  unfold UnpackedFloat.normalize
  cases order : compare m 0 with
  | lt =>
      have negative := Int.compare_eq_lt.1 order
      omega
  | eq => exact .zero .positive
  | gt => exact nonnegative_roundWithAccuracy _ _ _

theorem Nonnegative.add {u v : UnpackedFloat} (nonneg : Nonnegative u) (nonneg' : Nonnegative v) :
    Nonnegative (UnpackedFloat.add .binary64 u v) := by
  cases nonneg with
  | infinity => cases nonneg' <;> exact .infinity
  | zero s =>
      cases nonneg' with
      | infinity => exact .infinity
      | zero s' => cases s <;> cases s' <;> exact .zero _
      | finite m' e' pos' => exact .finite m' e' pos'
  | finite m e pos =>
      cases nonneg' with
      | infinity => exact .infinity
      | zero s' => exact .finite m e pos
      | finite m' e' pos' =>
          apply nonnegative_normalize
          exact Int.add_nonneg (Int.natCast_nonneg _) (Int.natCast_nonneg _)

theorem zero_le_add {x y : Float} (nonneg : 0.0 ≤ x) (nonneg' : 0.0 ≤ y) : 0.0 ≤ x + y := by
  rw [zero_le_iff] at nonneg nonneg' ⊢
  rw [value_add]
  exact (nonneg.add nonneg').repacked

/-- A zero and an infinity, whose product is no number. -/
def Indeterminate (x y : Float) : Prop :=
  (x == 0) = true ∧ y.isInf = true ∨ x.isInf = true ∧ (y == 0) = true

theorem isNaN_mul_of_indeterminate {x y : Float} (meet : Indeterminate x y) :
    (x * y).isNaN = true := by
  rw [isNaN_iff, value_mul]
  simp only [Indeterminate, beq_zero_iff, isInf_iff] at meet
  rcases meet with ⟨⟨s, zero⟩, ⟨s', infinite⟩⟩ | ⟨⟨s, infinite⟩, ⟨s', zero⟩⟩
  · rw [zero, infinite]
    exact repacked_notANumber
  · rw [infinite, zero]
    exact repacked_notANumber

example : (0.0 * (1e200 * 1e200) : Float).isNaN = true := by decide +kernel

theorem zero_le_mul {x y : Float} (nonneg : 0.0 ≤ x) (nonneg' : 0.0 ≤ y)
    (apart : ¬ Indeterminate x y) : 0.0 ≤ x * y := by
  simp only [Indeterminate, beq_zero_iff, isInf_iff, not_or, not_and, not_exists] at apart
  rw [zero_le_iff] at nonneg nonneg' ⊢
  rw [value_mul]
  apply Nonnegative.repacked
  generalize value x = u at *
  generalize value y = v at *
  cases nonneg with
  | infinity =>
      cases nonneg' with
      | infinity => exact .infinity
      | zero s' => exact absurd rfl (apart.2 ⟨_, rfl⟩ s')
      | finite m' e' pos' => exact .infinity
  | zero s =>
      cases nonneg' with
      | infinity => exact absurd rfl (apart.1 ⟨s, rfl⟩ .positive)
      | zero s' => exact .zero _
      | finite m' e' pos' => exact .zero _
  | finite m e pos =>
      cases nonneg' with
      | infinity => exact .infinity
      | zero s' => exact .zero _
      | finite m' e' pos' => exact nonnegative_roundWithAccuracy _ _ _

/-! ## Products on one side of one -/

theorem log2_mul_bounds {m m' : Nat} (pos : 0 < m) (pos' : 0 < m') :
    m.log2 + m'.log2 ≤ (m * m').log2 ∧ (m * m').log2 ≤ m.log2 + m'.log2 + 1 := by
  have product : m * m' ≠ 0 := Nat.ne_of_gt (Nat.mul_pos pos pos')
  constructor
  · rw [Nat.le_log2 product, Nat.pow_add]
    exact Nat.mul_le_mul (Nat.log2_self_le (by omega)) (Nat.log2_self_le (by omega))
  · have below : m * m' < 2 ^ (m.log2 + 1) * 2 ^ (m'.log2 + 1) :=
      Nat.mul_lt_mul'' Nat.lt_log2_self Nat.lt_log2_self
    rw [← Nat.pow_add, ← Nat.log2_lt product] at below
    omega

theorem log2_mul_two_pow {m : Nat} (k : Nat) (pos : 0 < m) :
    (m * 2 ^ k).log2 = m.log2 + k := by
  have power := Nat.two_pow_pos k
  have product : m * 2 ^ k ≠ 0 := Nat.ne_of_gt (Nat.mul_pos pos power)
  have low := Nat.mul_le_mul_right (2 ^ k) (Nat.log2_self_le (Nat.ne_of_gt pos))
  have high := Nat.mul_lt_mul_of_pos_right (Nat.lt_log2_self (n := m)) power
  rw [← Nat.pow_add] at low high
  rw [Nat.log2_eq_iff product]
  refine ⟨low, ?_⟩
  rw [Nat.add_right_comm]
  exact high

/-- A value that is at least one. -/
inductive AtLeastOne : UnpackedFloat → Prop
  | infinity : AtLeastOne (.infinity .positive)
  | finite (m : Nat) (e : Int) (pos : 0 < m) (leading : m.log2 = 52) (high : -52 ≤ e) :
      AtLeastOne (.finite .positive m e pos)

/-- A value between zero and one. -/
inductive AtMostOne : UnpackedFloat → Prop
  | zero (s : Sign) : AtMostOne (.zero s)
  | below (m : Nat) (e : Int) (pos : 0 < m) (fits : Fits m e) (low : e ≤ -53) :
      AtMostOne (.finite .positive m e pos)
  | one : AtMostOne (.finite .positive (2 ^ 52) (-52) (Nat.two_pow_pos 52))

theorem AtLeastOne.nonnegative {u : UnpackedFloat} (high : AtLeastOne u) : Nonnegative u := by
  cases high with
  | infinity => exact .infinity
  | finite m e pos leading high => exact .finite m e pos

theorem AtMostOne.nonnegative {u : UnpackedFloat} (low : AtMostOne u) : Nonnegative u := by
  cases low with
  | zero s => exact .zero s
  | below m e pos fits low => exact .finite m e pos
  | one => exact .finite _ _ _

theorem atLeastOne_repacked_finite {m : Nat} {e : Int} (pos : 0 < m) (leading : m.log2 = 52)
    (high : -52 ≤ e) : AtLeastOne (repacked (.finite .positive m e pos)) := by
  by_cases great : 972 ≤ e
  · rw [repacked_of_great great]
    exact .infinity
  · have fits : Fits m e := ⟨by omega, by omega, by omega, .inl leading⟩
    rw [repacked_of_fits fits]
    exact .finite m e pos leading high

/-- The leading digits of two values stay in front of their product. -/
theorem AtLeastOne.mul {u v : UnpackedFloat} (high : AtLeastOne u) (high' : AtLeastOne v) :
    AtLeastOne (repacked (UnpackedFloat.mul .binary64 u v)) := by
  cases high with
  | infinity =>
      cases high' <;>
      · rw [UnpackedFloat.mul, repacked_infinity]
        exact .infinity
  | finite m e pos leading high =>
      cases high' with
      | infinity =>
          rw [UnpackedFloat.mul, repacked_infinity]
          exact .infinity
      | finite m' e' pos' leading' high' =>
          have digits := (log2_mul_bounds pos pos').1
          have exponent := roundingExponent_eq (m * m') (e + e')
          have rounded := rounded_roundWithAccuracy .positive (Nat.mul_pos pos pos')
            (show e + e' ≤ roundingExponent (m * m') (e + e') by omega)
          show AtLeastOne (repacked (roundWithAccuracy .binary64 .positive (m * m') (e + e') _))
          generalize roundWithAccuracy .binary64 .positive (m * m') (e + e') .exact = r at rounded
          cases rounded with
          | vanished lowest => omega
          | placed q pos fits leading =>
              exact atLeastOne_repacked_finite pos (by omega) (by omega)
          | carried => exact atLeastOne_repacked_finite _ (Nat.log2_two_pow) (by omega)

/-- What has no digit in front of the point is rounded to at most one. -/
theorem atMostOne_roundWithAccuracy {m : Nat} {e : Int} (pos : 0 < m)
    (below : e ≤ roundingExponent m e) (low : m.log2 + e ≤ -1) :
    AtMostOne (repacked (roundWithAccuracy .binary64 .positive m e .exact)) := by
  have exponent := roundingExponent_eq m e
  have rounded := rounded_roundWithAccuracy .positive pos below
  generalize roundWithAccuracy .binary64 .positive m e .exact = r at rounded
  cases rounded with
  | vanished lowest =>
      rw [repacked_zero]
      exact .zero .positive
  | placed q pos few leading =>
      have fits : Fits q (roundingExponent m e) := ⟨few, by omega, by omega, leading⟩
      rw [repacked_of_fits fits]
      exact .below _ _ pos fits (by omega)
  | carried =>
      have fits : Fits (2 ^ 52) (roundingExponent m e + 1) :=
        ⟨by rw [Nat.log2_two_pow], by omega, by omega, .inl Nat.log2_two_pow⟩
      rw [repacked_of_fits fits]
      by_cases top : roundingExponent m e + 1 = -52
      · simp only [top]
        exact .one
      · exact .below _ _ _ fits (by omega)

theorem AtMostOne.mul {u v : UnpackedFloat} (low : AtMostOne u) (low' : AtMostOne v) :
    AtMostOne (repacked (UnpackedFloat.mul .binary64 u v)) := by
  cases low with
  | zero s =>
      cases low' <;>
      · rw [UnpackedFloat.mul, repacked_zero]
        exact .zero _
  | below m e pos fits low =>
      cases low' with
      | zero s =>
          rw [UnpackedFloat.mul, repacked_zero]
          exact .zero _
      | below m' e' pos' fits' low' =>
          have digits := log2_mul_bounds pos pos'
          have exponent := roundingExponent_eq (m * m') (e + e')
          obtain ⟨few, -, -, leading⟩ := fits
          obtain ⟨few', -, -, leading'⟩ := fits'
          exact atMostOne_roundWithAccuracy (Nat.mul_pos pos pos') (by omega) (by omega)
      | one =>
          have digits := log2_mul_two_pow 52 pos
          have exponent := roundingExponent_eq (m * 2 ^ 52) (e + -52)
          obtain ⟨few, -, -, leading⟩ := fits
          exact atMostOne_roundWithAccuracy (Nat.mul_pos pos (Nat.two_pow_pos 52)) (by omega)
            (by omega)
  | one =>
      cases low' with
      | zero s =>
          rw [UnpackedFloat.mul, repacked_zero]
          exact .zero _
      | below m e pos fits low =>
          have digits := log2_mul_two_pow 52 pos
          rw [Nat.mul_comm] at digits
          have exponent := roundingExponent_eq (2 ^ 52 * m) (-52 + e)
          obtain ⟨few, -, -, leading⟩ := fits
          exact atMostOne_roundWithAccuracy (Nat.mul_pos (Nat.two_pow_pos 52) pos) (by omega)
            (by omega)
      | one => exact .one

/-- A double that is at least zero lies on one side of one. -/
theorem atLeastOne_or_atMostOne {x : Float} (nonneg : 0.0 ≤ x) :
    AtLeastOne (value x) ∨ AtMostOne (value x) := by
  rw [zero_le_iff] at nonneg
  cases has : value x with
  | notANumber => rw [has] at nonneg; cases nonneg
  | zero s => exact .inr (.zero s)
  | infinity s =>
      rw [has] at nonneg
      cases nonneg
      exact .inl .infinity
  | finite s m e pos =>
      have fits := fits_of_value has
      rw [has] at nonneg
      cases nonneg
      by_cases high : -52 ≤ e
      · exact .inl (.finite m e pos (fits.leading.resolve_right (by omega)) high)
      · exact .inr (.below m e pos fits (by omega))

end QueryCost.Double
