/-
# QueryCost.Proofs.Double.Rounding -- what rounding a product or a sum leaves

A product or a sum of doubles is formed exactly and then brought to an exponent at
which a mantissa has 53 binary digits, or to the lowest exponent there is.  Here only
the size of what is left matters, not its last digit: the mantissa is the quotient
or the next number above it, and where it outgrows its 53 digits it is halved.

The size of a mantissa is told by `Nat.log2`: one with the leading digit has 52.
-/
import Mathlib

namespace QueryCost.Double

open Float.Model
open Float.Model.UnpackedFloat

set_option autoImplicit false

/-! ## Mantissas -/

theorem mantissa_shiftRight (em : ExtendedMantissa) (n : Nat) :
    (em >>> n).mantissa = em.mantissa / 2 ^ n := by
  show (n.repeat ExtendedMantissa.shiftRightOne em).mantissa = em.mantissa / 2 ^ n
  induction n with
  | zero => rw [Nat.repeat, Nat.pow_zero, Nat.div_one]
  | succ n shifted =>
      rw [Nat.repeat, Nat.pow_succ, ← Nat.div_div_eq_div_mul, ← shifted]
      rfl

theorem roundedMantissa_bounds (em : ExtendedMantissa) :
    em.mantissa ≤ em.roundedMantissa ∧ em.roundedMantissa ≤ em.mantissa + 1 := by
  unfold ExtendedMantissa.roundedMantissa
  cases em.accuracy with
  | exact => exact ⟨Nat.le_refl _, Nat.le_succ _⟩
  | inexact half =>
      cases half with
      | lt => exact ⟨Nat.le_refl _, Nat.le_succ _⟩
      | eq =>
          have parity := Nat.mod_lt em.mantissa (Nat.zero_lt_two)
          simp only [Accuracy.roundToNearestEven]
          omega
      | gt => exact ⟨Nat.le_succ _, Nat.le_refl _⟩

/-- The mantissa that is left of `m` when `n` digits are dropped. -/
def kept (m n : Nat) : Nat :=
  ((ExtendedMantissa.ofMantissaAndAccuracy m .exact) >>> n).roundedMantissa

theorem kept_bounds (m n : Nat) : m / 2 ^ n ≤ kept m n ∧ kept m n ≤ m / 2 ^ n + 1 := by
  have bounds := roundedMantissa_bounds ((ExtendedMantissa.ofMantissaAndAccuracy m .exact) >>> n)
  rw [mantissa_shiftRight] at bounds
  exact bounds

/-- Either there is room for what is kept, or it is the next power of two. -/
theorem log2_kept {m n k : Nat} (few : m.log2 ≤ k + n) :
    (kept m n).log2 ≤ k ∨ kept m n = 2 ^ (k + 1) := by
  have quotient : m / 2 ^ n < 2 ^ (k + 1) := by
    rw [Nat.div_lt_iff_lt_mul (Nat.two_pow_pos n), ← Nat.pow_add]
    have below : m < 2 ^ (m.log2 + 1) := Nat.lt_log2_self
    have enough : 2 ^ (m.log2 + 1) ≤ 2 ^ (k + 1 + n) :=
      Nat.pow_le_pow_right Nat.zero_lt_two (by omega)
    omega
  have bounds := kept_bounds m n
  rcases Nat.lt_or_ge (kept m n) (2 ^ (k + 1)) with short | long
  · left
    by_cases zero : kept m n = 0
    · rw [zero, Nat.log2_zero]
      omega
    · have := (Nat.log2_lt zero).2 short
      omega
  · right
    omega

theorem le_log2_kept {m n k : Nat} (pos : m ≠ 0) (many : k + n ≤ m.log2) :
    kept m n ≠ 0 ∧ k ≤ (kept m n).log2 := by
  have quotient : 2 ^ k ≤ m / 2 ^ n := by
    rw [Nat.le_div_iff_mul_le (Nat.two_pow_pos n), ← Nat.pow_add]
    have above : 2 ^ m.log2 ≤ m := Nat.log2_self_le pos
    have enough : 2 ^ (k + n) ≤ 2 ^ m.log2 := Nat.pow_le_pow_right Nat.zero_lt_two many
    omega
  have bounds := kept_bounds m n
  have power := Nat.two_pow_pos k
  have nonzero : kept m n ≠ 0 := by omega
  exact ⟨nonzero, (Nat.le_log2 nonzero).2 (by omega)⟩

/-! ## Rounding -/

/-- The exponent that a value is rounded at. -/
def roundingExponent (m : Nat) (e : Int) : Int :=
  Format.binary64.targetExponent (totalExponent m e)

theorem roundingExponent_eq (m : Nat) (e : Int) :
    roundingExponent m e = max (m.log2 + e - 52) (-1074) := by
  have least : Format.binary64.minExponent = -1074 := by decide
  have digits : Format.binary64.mantissaBits = 53 := rfl
  unfold roundingExponent Format.targetExponent totalExponent
  rw [least, digits]
  omega

/-- A mantissa at an exponent, once more brought to the exponent that fits it. -/
def settled (s : Sign) (m : Nat) (e : Int) : UnpackedFloat :=
  let em := shiftToTargetExponent .binary64 m e .exact
  if h : em.1.mantissa = 0 then .zero s
  else .finite s em.1.mantissa em.2 (Nat.pos_of_ne_zero h)

theorem shiftToTargetExponent_mantissa (m : Nat) (e : Int) :
    (shiftToTargetExponent .binary64 m e .exact).1.mantissa =
      m / 2 ^ (roundingExponent m e - e).toNat := by
  exact mantissa_shiftRight _ _

theorem shiftToTargetExponent_exponent {m : Nat} {e : Int} (below : e ≤ roundingExponent m e) :
    (shiftToTargetExponent .binary64 m e .exact).2 = roundingExponent m e := by
  show e + ((roundingExponent m e - e).toNat : Int) = roundingExponent m e
  omega

theorem roundWithAccuracy_eq_settled {m : Nat} {e : Int} (s : Sign)
    (below : e ≤ roundingExponent m e) :
    roundWithAccuracy .binary64 s m e .exact =
      settled s (kept m (roundingExponent m e - e).toNat) (roundingExponent m e) := by
  have exponent := shiftToTargetExponent_exponent below
  have rounded : (shiftToTargetExponent .binary64 m e .exact).1.roundedMantissa =
      kept m (roundingExponent m e - e).toNat := rfl
  unfold roundWithAccuracy
  simp only [exponent, rounded]
  rfl

theorem settled_zero (s : Sign) (e : Int) : settled s 0 e = .zero s := by
  have none := shiftToTargetExponent_mantissa 0 e
  rw [Nat.zero_div] at none
  unfold settled
  rw [dif_pos none]

theorem settled_of_fits {s : Sign} {m : Nat} {e : Int} (pos : 0 < m) (fits : m.log2 ≤ 52)
    (least : -1074 ≤ e) : settled s m e = .finite s m e pos := by
  have stays : (roundingExponent m e - e).toNat = 0 := by
    rw [roundingExponent_eq]
    omega
  have mantissa : (shiftToTargetExponent .binary64 m e .exact).1.mantissa = m := by
    rw [shiftToTargetExponent_mantissa, stays, Nat.pow_zero, Nat.div_one]
  have exponent : (shiftToTargetExponent .binary64 m e .exact).2 = e := by
    show e + ((roundingExponent m e - e).toNat : Int) = e
    rw [stays]
    omega
  unfold settled
  simp only [mantissa, exponent, Nat.ne_of_gt pos, dite_false]

/-- A mantissa that has just outgrown its digits is halved. -/
theorem settled_carry {s : Sign} {e : Int} (least : -1074 ≤ e) :
    settled s (2 ^ 53) e = .finite s (2 ^ 52) (e + 1) (Nat.two_pow_pos 52) := by
  have rises : roundingExponent (2 ^ 53) e = e + 1 := by
    rw [roundingExponent_eq, Nat.log2_two_pow]
    omega
  have mantissa : (shiftToTargetExponent .binary64 (2 ^ 53) e .exact).1.mantissa = 2 ^ 52 := by
    rw [shiftToTargetExponent_mantissa, rises, show (e + 1 - e).toNat = 1 by omega]
    decide
  have exponent : (shiftToTargetExponent .binary64 (2 ^ 53) e .exact).2 = e + 1 := by
    rw [shiftToTargetExponent_exponent (by omega), rises]
  have nonzero : (2 ^ 52 : Nat) ≠ 0 := Nat.ne_of_gt (Nat.two_pow_pos 52)
  unfold settled
  simp only [mantissa, exponent, nonzero, dite_false]

/-- What rounding at an exponent may leave: nothing, but only at the lowest exponent;
a mantissa at that exponent, with its leading digit except at the lowest; or the
least mantissa with a leading digit, one exponent higher. -/
inductive Rounded (s : Sign) (e : Int) : UnpackedFloat → Prop
  | vanished (lowest : e = -1074) : Rounded s e (.zero s)
  | placed (m : Nat) (pos : 0 < m) (fits : m.log2 ≤ 52) (leading : m.log2 = 52 ∨ e = -1074) :
      Rounded s e (.finite s m e pos)
  | carried : Rounded s e (.finite s (2 ^ 52) (e + 1) (Nat.two_pow_pos 52))

theorem rounded_roundWithAccuracy {m : Nat} {e : Int} (s : Sign) (pos : 0 < m)
    (below : e ≤ roundingExponent m e) :
    Rounded s (roundingExponent m e) (roundWithAccuracy .binary64 s m e .exact) := by
  rw [roundWithAccuracy_eq_settled s below]
  have exponent := roundingExponent_eq m e
  have least : -1074 ≤ roundingExponent m e := by omega
  have few : m.log2 ≤ 52 + (roundingExponent m e - e).toNat := by omega
  rcases log2_kept few with fits | carry
  · by_cases lowest : roundingExponent m e = -1074
    · rcases Nat.eq_zero_or_pos (kept m (roundingExponent m e - e).toNat) with zero | some
      · rw [zero, settled_zero]
        exact .vanished lowest
      · rw [settled_of_fits some fits least]
        exact .placed _ some fits (.inr lowest)
    · have many : 52 + (roundingExponent m e - e).toNat ≤ m.log2 := by omega
      obtain ⟨nonzero, leading⟩ := le_log2_kept (Nat.ne_of_gt pos) many
      rw [settled_of_fits (Nat.pos_of_ne_zero nonzero) fits least]
      exact .placed _ _ fits (.inl (Nat.le_antisymm fits leading))
  · rw [carry, settled_carry least]
    exact .carried

end QueryCost.Double
