/-
# QueryCost.Proofs.Double.Units -- doubles counted in the least one

Every finite double is a multiple of the least one above zero.  Counted in these units
(`count`, where an infinity is more than any number), a sum of doubles that are at least
zero is the sum of their counts, rounded (`count_add`).

Rounding depends on the count alone and keeps the order of counts: shifting a mantissa
keeps the order of what it stands for, its residual digits included
(`code_shiftRightOne_le`), and so does rounding it.  Hence sums of doubles keep the order of
their parts, and no part of a sum is greater than the sum.

Doubles that are at least zero compare as their counts do, and a natural number of at most
53 digits is counted exactly; so of two such numbers the doubles stand in the same order.
-/
import QueryCost.Proofs.Double.Arithmetic

namespace QueryCost.Double

open Float.Model
open Float.Model.UnpackedFloat

set_option autoImplicit false

/-! ## Mantissas in order -/

/-- A mantissa followed by its two residual digits. -/
def code (em : ExtendedMantissa) : Nat :=
  4 * em.mantissa + 2 * em.roundBit.toNat + em.stickyBit.toNat

theorem code_shiftRightOne_le {em em' : ExtendedMantissa} (le : code em ≤ code em') :
    code em.shiftRightOne ≤ code em'.shiftRightOne := by
  obtain ⟨m, r, s⟩ := em
  obtain ⟨m', r', s'⟩ := em'
  have parity : ∀ n : Nat, (n % 2 != 0).toNat = n % 2 := fun n => by
    rcases Nat.mod_two_eq_zero_or_one n with even | odd
    · rw [even]; rfl
    · rw [odd]; rfl
  simp only [code, ExtendedMantissa.shiftRightOne, parity] at le ⊢
  cases r <;> cases s <;> cases r' <;> cases s' <;> simp at le ⊢ <;> omega

theorem code_shiftRight_le {em em' : ExtendedMantissa} (le : code em ≤ code em') (n : Nat) :
    code (em >>> n) ≤ code (em' >>> n) := by
  show code (n.repeat ExtendedMantissa.shiftRightOne em) ≤
    code (n.repeat ExtendedMantissa.shiftRightOne em')
  induction n with
  | zero => exact le
  | succ n shifted => exact code_shiftRightOne_le shifted

theorem roundedMantissa_le {em em' : ExtendedMantissa} (le : code em ≤ code em') :
    em.roundedMantissa ≤ em'.roundedMantissa := by
  obtain ⟨m, r, s⟩ := em
  obtain ⟨m', r', s'⟩ := em'
  simp only [code] at le
  cases r <;> cases s <;> cases r' <;> cases s' <;>
    simp [ExtendedMantissa.roundedMantissa, ExtendedMantissa.accuracy,
      Accuracy.roundToNearestEven] at le ⊢ <;> omega

theorem kept_le_kept {m m' : Nat} (le : m ≤ m') (n : Nat) : kept m n ≤ kept m' n := by
  apply roundedMantissa_le
  apply code_shiftRight_le
  simp only [code, ExtendedMantissa.ofMantissaAndAccuracy]
  omega

/-- Zeros at the end of a mantissa are dropped without a trace. -/
theorem shiftRight_of_zeros (m j n : Nat) :
    (ExtendedMantissa.mk (m * 2 ^ j) false false) >>> (n + j) =
      (ExtendedMantissa.mk m false false) >>> n := by
  show (n + j).repeat ExtendedMantissa.shiftRightOne _ = n.repeat ExtendedMantissa.shiftRightOne _
  induction n with
  | succ n shifted => rw [Nat.add_right_comm, Nat.repeat, shifted, Nat.repeat]
  | zero =>
      rw [Nat.zero_add, Nat.repeat]
      induction j generalizing m with
      | zero => rw [Nat.pow_zero, Nat.mul_one, Nat.repeat]
      | succ j shifted =>
          have doubled : m * 2 ^ (j + 1) = 2 * m * 2 ^ j := by
            rw [Nat.pow_succ, Nat.mul_comm 2 m, Nat.mul_assoc, Nat.mul_comm (2 ^ j)]
          rw [doubled, Nat.repeat, shifted]
          simp [ExtendedMantissa.shiftRightOne]

theorem kept_mul_two_pow (m j n : Nat) : kept (m * 2 ^ j) (n + j) = kept m n :=
  congrArg ExtendedMantissa.roundedMantissa (shiftRight_of_zeros m j n)

theorem kept_zero (m : Nat) : kept m 0 = m := rfl

/-! ## Rounding counts -/

/-- A count with all but its 53 leading digits rounded away. -/
def nearest (n : Nat) : Nat :=
  kept n (n.log2 - 52) * 2 ^ (n.log2 - 52)

/-- A count that is too great for a double is that of an infinity. -/
def clipped (n : Nat) : ℕ∞ :=
  if n.log2 < 2098 then n else ⊤

/-- The count that a double has for a count. -/
def rounded (n : ℕ∞) : ℕ∞ :=
  n.recTopCoe ⊤ fun n => clipped (nearest n)

@[simp] theorem rounded_top : rounded ⊤ = ⊤ := rfl

@[simp] theorem rounded_coe (n : Nat) : rounded n = clipped (nearest n) := rfl

theorem log2_le_log2 {m n : Nat} (le : m ≤ n) : m.log2 ≤ n.log2 := by
  rw [Nat.log2_eq_log_two, Nat.log2_eq_log_two]
  exact Nat.log_mono_right le

theorem clipped_le_clipped {m n : Nat} (le : m ≤ n) : clipped m ≤ clipped n := by
  have digits := log2_le_log2 le
  unfold clipped
  by_cases short : n.log2 < 2098
  · rw [if_pos short, if_pos (by omega)]
    exact_mod_cast le
  · rw [if_neg short]
    exact le_top

/-- Either both counts are rounded at one digit, or a power of two lies between them. -/
theorem nearest_le_nearest {m n : Nat} (le : m ≤ n) : nearest m ≤ nearest n := by
  have digits := log2_le_log2 le
  unfold nearest
  rcases Nat.lt_or_ge (m.log2 - 52) (n.log2 - 52) with shorter | same
  · have nonzero : n ≠ 0 := by
      rintro rfl
      rw [Nat.log2_zero] at shorter
      omega
    have below : kept m (m.log2 - 52) ≤ 2 ^ 53 := by
      have few : m.log2 ≤ 52 + (m.log2 - 52) := by omega
      rcases log2_kept few with fits | carry
      · exact Nat.le_of_lt (Nat.lt_of_lt_of_le Nat.lt_log2_self
          (Nat.pow_le_pow_right Nat.zero_lt_two (by omega)))
      · exact Nat.le_of_eq carry
    have above : 2 ^ 52 ≤ kept n (n.log2 - 52) := by
      obtain ⟨some, leading⟩ := le_log2_kept (k := 52) (n := n.log2 - 52) nonzero (by omega)
      exact (Nat.le_log2 some).1 leading
    calc kept m (m.log2 - 52) * 2 ^ (m.log2 - 52)
        ≤ 2 ^ 53 * 2 ^ (m.log2 - 52) := Nat.mul_le_mul_right _ below
      _ = 2 ^ 52 * 2 ^ (m.log2 - 52 + 1) := by
          rw [← Nat.pow_add, ← Nat.pow_add]
          congr 1
          omega
      _ ≤ 2 ^ 52 * 2 ^ (n.log2 - 52) :=
          Nat.mul_le_mul_left _ (Nat.pow_le_pow_right Nat.zero_lt_two shorter)
      _ ≤ kept n (n.log2 - 52) * 2 ^ (n.log2 - 52) := Nat.mul_le_mul_right _ above
  · have equal : m.log2 - 52 = n.log2 - 52 := by omega
    rw [equal]
    exact Nat.mul_le_mul_right _ (kept_le_kept le _)

theorem rounded_le_rounded {m n : ℕ∞} (le : m ≤ n) : rounded m ≤ rounded n := by
  cases n with
  | top => exact le_top
  | coe n =>
      cases m with
      | top => exact absurd le (by simp)
      | coe m => exact clipped_le_clipped (nearest_le_nearest (by exact_mod_cast le))

/-- A count of at most 53 digits and zeros is its own nearest. -/
theorem nearest_mul_two_pow {m : Nat} (short : m.log2 ≤ 52) (j : Nat) :
    nearest (m * 2 ^ j) = m * 2 ^ j := by
  rcases Nat.eq_zero_or_pos m with rfl | pos
  · rw [Nat.zero_mul]
    rfl
  · have digits := log2_mul_two_pow j pos
    obtain ⟨i, split⟩ : ∃ i, j = i + ((m * 2 ^ j).log2 - 52) :=
      ⟨_, (Nat.sub_add_cancel (by omega)).symm⟩
    have shifted : m * 2 ^ j = m * 2 ^ i * 2 ^ ((m * 2 ^ j).log2 - 52) := by
      rw [Nat.mul_assoc, ← Nat.pow_add, ← split]
    have unchanged := kept_mul_two_pow (m * 2 ^ i) ((m * 2 ^ j).log2 - 52) 0
    rw [← shifted, Nat.zero_add, kept_zero] at unchanged
    rw [nearest, unchanged]
    exact shifted.symm

/-! ## Counting -/

/-- How many of the least value above zero a value comes to, whatever its sign. -/
def units : UnpackedFloat → ℕ∞
  | .zero _ => 0
  | .finite _ m e _ => (m * 2 ^ (e + 1074).toNat : Nat)
  | .infinity _ => ⊤
  | .notANumber => ⊤

@[simp] theorem units_zero (s : Sign) : units (.zero s) = 0 := rfl

@[simp] theorem units_infinity (s : Sign) : units (.infinity s) = ⊤ := rfl

theorem units_finite (s : Sign) (m : Nat) (e : Int) (pos : 0 < m) :
    units (.finite s m e pos) = (m * 2 ^ (e + 1074).toNat : Nat) := rfl

/-- How many of the least double above zero a double comes to, whatever its sign. -/
def count (x : Float) : ℕ∞ :=
  units (value x)

theorem isFinite_iff_count (x : Float) : x.isFinite = true ↔ count x ≠ ⊤ := by
  show (value x).isFinite = true ↔ units (value x) ≠ ⊤
  cases value x with
  | finite s m e pos => exact iff_of_true rfl (ENat.natCast_ne_top _)
  | zero s => exact iff_of_true rfl ENat.zero_ne_top
  | infinity s => exact iff_of_false nofun (fun finite => finite rfl)
  | notANumber => exact iff_of_false nofun (fun finite => finite rfl)

/-- What a double has room for is not too great. -/
theorem log2_units {m : Nat} {e : Int} (pos : 0 < m) (fits : Fits m e) :
    (m * 2 ^ (e + 1074).toNat).log2 < 2098 := by
  obtain ⟨digits, lowest, highest, -⟩ := fits
  rw [log2_mul_two_pow _ pos]
  omega

/-- What is read from a double is packed without loss. -/
theorem repacked_value (x : Float) : repacked (value x) = value x :=
  congrArg (UnpackedFloat.unpack .binary64) (pack_value x)

/-- The count of a double is not rounded. -/
theorem rounded_count (x : Float) : rounded (count x) = count x := by
  unfold count
  cases has : value x with
  | zero s => rfl
  | infinity s => rfl
  | notANumber => rfl
  | finite s m e pos =>
      have fits := fits_of_value has
      rw [units_finite, rounded_coe, nearest_mul_two_pow fits.digits, clipped,
        if_pos (log2_units pos fits)]

/-- A mantissa with its leading digit, or at the least exponent, is packed without loss, unless it
is too great. -/
theorem units_repacked_finite {m : Nat} {e : Int} (s : Sign) (pos : 0 < m) (least : -1074 ≤ e)
    (short : m.log2 ≤ 52) (leading : 52 ≤ m.log2 ∨ e = -1074) :
    units (repacked (.finite s m e pos)) = clipped (m * 2 ^ (e + 1074).toNat) := by
  have digits := log2_mul_two_pow (e + 1074).toNat pos
  by_cases great : 972 ≤ e
  · rw [repacked_of_great great, clipped, if_neg (by omega)]
    rfl
  · have fits : Fits m e := ⟨short, least, by omega, by omega⟩
    rw [repacked_of_fits fits, clipped, if_pos (log2_units pos fits)]
    rfl

theorem units_repacked_settled {q : Nat} {e : Int} (s : Sign) (least : -1074 ≤ e)
    (room : q.log2 ≤ 52 ∨ q = 2 ^ 53) (leading : 52 ≤ q.log2 ∨ e = -1074) :
    units (repacked (settled s q e)) = clipped (q * 2 ^ (e + 1074).toNat) := by
  rcases room with short | rfl
  · rcases Nat.eq_zero_or_pos q with rfl | pos
    · rw [settled_zero, repacked_zero, Nat.zero_mul]
      rfl
    · rw [settled_of_fits pos short least]
      exact units_repacked_finite s pos least short leading
  · have halved : 2 ^ 53 * 2 ^ (e + 1074).toNat = 2 ^ 52 * 2 ^ (e + 1 + 1074).toNat := by
      rw [← Nat.pow_add, ← Nat.pow_add]
      congr 1
      omega
    rw [settled_carry least, halved]
    exact units_repacked_finite s _ (by omega) (Nat.le_of_eq Nat.log2_two_pow)
      (.inl (Nat.le_of_eq Nat.log2_two_pow.symm))

/-- Rounding a value rounds its count. -/
theorem units_roundWithAccuracy {m : Nat} {e : Int} (s : Sign) (pos : 0 < m) (least : -1074 ≤ e)
    (below : e ≤ roundingExponent m e) :
    units (repacked (roundWithAccuracy .binary64 s m e .exact)) =
      rounded (m * 2 ^ (e + 1074).toNat : Nat) := by
  have exponent := roundingExponent_eq m e
  have digits := log2_mul_two_pow (e + 1074).toNat pos
  -- the digits that are dropped of the mantissa are those dropped of the count
  have dropped : (m * 2 ^ (e + 1074).toNat).log2 - 52 = (roundingExponent m e + 1074).toNat := by
    omega
  have split : (roundingExponent m e + 1074).toNat =
      (roundingExponent m e - e).toNat + (e + 1074).toNat := by omega
  have room := log2_kept (m := m) (n := (roundingExponent m e - e).toNat) (k := 52) (by omega)
  have leading : 52 ≤ (kept m (roundingExponent m e - e).toNat).log2 ∨
      roundingExponent m e = -1074 := by
    by_cases lowest : roundingExponent m e = -1074
    · exact .inr lowest
    · exact .inl (le_log2_kept (Nat.ne_of_gt pos) (by omega)).2
  rw [roundWithAccuracy_eq_settled s below, units_repacked_settled s (by omega) room leading,
    rounded_coe, nearest, dropped, split, kept_mul_two_pow]

/-- A lower exponent leaves the count as it is. -/
theorem count_of_lowered (m : Nat) {e low : Int} (least : -1074 ≤ low) (below : low ≤ e) :
    m <<< (e - low).toNat * 2 ^ (low + 1074).toNat = m * 2 ^ (e + 1074).toNat := by
  rw [Nat.shiftLeft_eq, Nat.mul_assoc, ← Nat.pow_add]
  congr 2
  omega

/-- Rounding first lowers the exponent to the one that it rounds at, if it is higher. -/
theorem units_round {m : Nat} {e : Int} (s : Sign) (pos : 0 < m) (least : -1074 ≤ e) :
    units (repacked (UnpackedFloat.round .binary64 s m e)) =
      rounded (m * 2 ^ (e + 1074).toNat : Nat) := by
  have target := roundingExponent_eq m e
  have steps : (e - min e (roundingExponent m e)).toNat = (e - roundingExponent m e).toNat := by
    omega
  have lowered : e - ((e - roundingExponent m e).toNat : Int) = min e (roundingExponent m e) := by
    omega
  have same := count_of_lowered m (show -1074 ≤ min e (roundingExponent m e) by omega)
    (Int.min_le_left e _)
  rw [steps] at same
  have longer := log2_mul_two_pow (e - roundingExponent m e).toNat pos
  rw [← Nat.shiftLeft_eq] at longer
  have target' := roundingExponent_eq (m <<< (e - roundingExponent m e).toNat)
    (min e (roundingExponent m e))
  have pos' : 0 < m <<< (e - roundingExponent m e).toNat := by
    rw [Nat.shiftLeft_eq]
    exact Nat.mul_pos pos (Nat.two_pow_pos _)
  show units (repacked (roundWithAccuracy .binary64 s (m <<< (e - roundingExponent m e).toNat)
    (e - ((e - roundingExponent m e).toNat : Int)) .exact)) = _
  rw [lowered, units_roundWithAccuracy s pos' (by omega) (by omega), same]

/-- Both mantissas are brought to the lower exponent and added there. -/
theorem units_add_finite {m m' : Nat} {e e' : Int} (pos : 0 < m) (pos' : 0 < m')
    (least : -1074 ≤ e) (least' : -1074 ≤ e') :
    units (repacked (UnpackedFloat.add .binary64 (.finite .positive m e pos)
      (.finite .positive m' e' pos'))) =
      rounded (m * 2 ^ (e + 1074).toNat + m' * 2 ^ (e' + 1074).toNat : Nat) := by
  have lowest : -1074 ≤ min e e' := by omega
  have same := count_of_lowered m lowest (Int.min_le_left e e')
  have same' := count_of_lowered m' lowest (Int.min_le_right e e')
  have positive : 0 < m <<< (e - min e e').toNat + m' <<< (e' - min e e').toNat := by
    rw [Nat.shiftLeft_eq]
    exact Nat.add_pos_left (Nat.mul_pos pos (Nat.two_pow_pos _)) _
  have sum := units_round .positive positive lowest
  rw [Nat.add_mul, same, same'] at sum
  rw [← sum]
  have order : compare ((m <<< (e - min e e').toNat + m' <<< (e' - min e e').toNat : Nat) : Int) 0
      = .gt := Int.compare_eq_gt.2 (by omega)
  show units (repacked (UnpackedFloat.normalize .binary64
    ((m <<< (e - min e e').toNat + m' <<< (e' - min e e').toNat : Nat) : Int) (min e e')
      .positive)) = _
  rw [UnpackedFloat.normalize, order]
  rfl

/-- **A sum is the rounded sum of the counts.** -/
theorem count_add {x y : Float} (nonneg : 0.0 ≤ x) (nonneg' : 0.0 ≤ y) :
    count (x + y) = rounded (count x + count y) := by
  have stays := repacked_value x
  have stays' := repacked_value y
  have kept := rounded_count x
  have kept' := rounded_count y
  have fits := @fits_of_value x
  have fits' := @fits_of_value y
  rw [zero_le_iff] at nonneg nonneg'
  unfold count at *
  rw [value_add]
  generalize value x = u at *
  generalize value y = v at *
  cases nonneg with
  | infinity =>
      have sum : UnpackedFloat.add .binary64 (.infinity .positive) v = .infinity .positive := by
        cases nonneg' <;> rfl
      rw [sum, stays, units_infinity, top_add, rounded_top]
  | zero s =>
      have sum : units (repacked (UnpackedFloat.add .binary64 (.zero s) v)) =
          units (repacked v) := by
        cases nonneg' with
        | zero s' => cases s <;> cases s' <;> rfl
        | _ => rfl
      rw [sum, stays', units_zero, zero_add, kept']
  | finite m e pos =>
      cases nonneg' with
      | infinity => exact congrArg units stays'
      | zero s' =>
          have sum : UnpackedFloat.add .binary64 (.finite .positive m e pos) (.zero s') =
              .finite .positive m e pos := rfl
          rw [sum, stays, units_zero, add_zero, kept]
      | finite m' e' pos' =>
          exact units_add_finite pos pos' (fits rfl).lowest (fits' rfl).lowest

/-- No part of a sum is greater than the sum. -/
theorem count_le_count_add {x y : Float} (nonneg : 0.0 ≤ x) (nonneg' : 0.0 ≤ y) :
    count x ≤ count (x + y) := by
  rw [count_add nonneg nonneg']
  calc count x = rounded (count x) := (rounded_count x).symm
    _ ≤ rounded (count x + count y) := rounded_le_rounded le_self_add

theorem count_add_le_count_add {x y z : Float} (nonneg : 0.0 ≤ x) (nonneg' : 0.0 ≤ y)
    (nonneg'' : 0.0 ≤ z) (le : count x ≤ count y) : count (x + z) ≤ count (y + z) := by
  rw [count_add nonneg nonneg'', count_add nonneg' nonneg'']
  exact rounded_le_rounded (add_le_add_left le (count z))

/-! ## Comparing counts -/

/-- Of two finite values the one with the greater exponent is greater, since only at the least
exponent a leading digit is missing. -/
theorem count_lt_of_exponent_lt {m m' : Nat} {e e' : Int} (fits : Fits m e) (fits' : Fits m' e')
    (pos' : 0 < m') (lt : e < e') :
    m * 2 ^ (e + 1074).toNat < m' * 2 ^ (e' + 1074).toNat := by
  have least := fits.lowest
  have short : m < 2 ^ 53 := Nat.lt_of_lt_of_le Nat.lt_log2_self
    (Nat.pow_le_pow_right Nat.zero_lt_two (Nat.succ_le_succ fits.digits))
  have leading : 2 ^ 52 ≤ m' := (Nat.le_log2 (Nat.ne_of_gt pos')).1
    (Nat.le_of_eq (fits'.leading.resolve_right (by omega)).symm)
  calc m * 2 ^ (e + 1074).toNat
      < 2 ^ 53 * 2 ^ (e + 1074).toNat := Nat.mul_lt_mul_of_pos_right short (Nat.two_pow_pos _)
    _ = 2 ^ 52 * 2 ^ ((e + 1074).toNat + 1) := by
        rw [← Nat.pow_add, ← Nat.pow_add]
        congr 1
        omega
    _ ≤ 2 ^ 52 * 2 ^ (e' + 1074).toNat :=
        Nat.mul_le_mul_left _ (Nat.pow_le_pow_right Nat.zero_lt_two (by omega))
    _ ≤ m' * 2 ^ (e' + 1074).toNat := Nat.mul_le_mul_right _ leading

theorem then_compare_eq_lt_iff {m m' : Nat} {e e' : Int} (pos : 0 < m) (pos' : 0 < m')
    (fits : Fits m e) (fits' : Fits m' e') :
    (compare e e').then (compare m m') = .lt ↔
      m * 2 ^ (e + 1074).toNat < m' * 2 ^ (e' + 1074).toNat := by
  rcases lt_trichotomy e e' with lower | rfl | higher
  · rw [Int.compare_eq_lt.2 lower]
    exact iff_of_true rfl (count_lt_of_exponent_lt fits fits' pos' lower)
  · rw [Int.compare_eq_eq.2 rfl, Ordering.then, Nat.compare_eq_lt,
      Nat.mul_lt_mul_right (Nat.two_pow_pos _)]
  · have greater := count_lt_of_exponent_lt fits' fits pos higher
    rw [Int.compare_eq_gt.2 higher]
    exact iff_of_false nofun (Nat.not_lt.2 (Nat.le_of_lt greater))

theorem lt_iff_count {x y : Float} (nonneg : 0.0 ≤ x) (nonneg' : 0.0 ≤ y) :
    x < y ↔ count x < count y := by
  have fits := @fits_of_value x
  have fits' := @fits_of_value y
  rw [zero_le_iff] at nonneg nonneg'
  rw [lt_iff]
  unfold count
  generalize value x = u at *
  generalize value y = v at *
  cases nonneg with
  | infinity =>
      refine iff_of_false ?_ not_top_lt
      cases nonneg' <;> nofun
  | zero s =>
      cases nonneg' with
      | infinity => exact iff_of_true rfl ENat.top_pos
      | zero s' => exact iff_of_false nofun (lt_irrefl _)
      | finite m' e' pos' =>
          have positive : 0 < m' * 2 ^ (e' + 1074).toNat := Nat.mul_pos pos' (Nat.two_pow_pos _)
          exact iff_of_true rfl (Nat.cast_pos.2 positive)
  | finite m e pos =>
      cases nonneg' with
      | infinity => exact iff_of_true rfl (ENat.natCast_lt_top _)
      | zero s' => exact iff_of_false nofun not_lt_zero
      | finite m' e' pos' =>
          have digits := then_compare_eq_lt_iff pos pos' (fits rfl) (fits' rfl)
          rw [units_finite, units_finite, Nat.cast_lt, ← digits]
          show (some ((compare e e').then (compare m m')) == some Ordering.lt) = true ↔ _
          rw [beq_iff_eq, Option.some_inj]

/-! ## Natural numbers -/

/-- A product with one is formed with 52 digits more, which are dropped again. -/
theorem value_mul_one {x : Float} (nonneg : 0.0 ≤ x) : value (x * 1.0) = value x := by
  have one : value 1.0 = .finite .positive (2 ^ 52) (-52) (Nat.two_pow_pos 52) := rfl
  have stays := repacked_value x
  have fits := @fits_of_value x
  rw [zero_le_iff] at nonneg
  rw [value_mul, one]
  generalize value x = u at *
  cases nonneg with
  | infinity => exact stays
  | zero s => cases s <;> exact stays
  | finite m e pos =>
      obtain ⟨digits, lowest, highest, leading⟩ := fits rfl
      have longer := log2_mul_two_pow 52 pos
      have exponent : roundingExponent (m * 2 ^ 52) (e + -52) = e := by
        have exponent := roundingExponent_eq (m * 2 ^ 52) (e + -52)
        omega
      have dropped : (e - (e + -52)).toNat = 0 + 52 := by omega
      have rounds : roundWithAccuracy .binary64 .positive (m * 2 ^ 52) (e + -52) .exact =
          .finite .positive m e pos := by
        rw [roundWithAccuracy_eq_settled _ (by omega), exponent, dropped, kept_mul_two_pow,
          kept_zero, settled_of_fits pos digits lowest]
      exact (congrArg repacked rounds).trans stays

/-- A natural number of at most 53 digits is made a double by way of a machine integer. -/
theorem ofNat_eq {n : Nat} (small : n < 2 ^ 53) : Float.ofNat n = n.toUInt64.toFloat * 1.0 := by
  have exact : n < 2 ^ 53 ∧ 0 ≤ 22 := ⟨small, by decide⟩
  show Float.ofScientific n false 0 = _
  rw [Float.ofScientific, dif_pos exact]
  rfl

theorem value_toFloat {n : Nat} (small : n < 2 ^ 53) :
    value n.toUInt64.toFloat = repacked (UnpackedFloat.normalize .binary64 n 0 .positive) := by
  have same : n.toUInt64.toNat = n := UInt64.toNat_ofNat_of_lt' (Nat.lt_trans small (by decide))
  show repacked (UnpackedFloat.normalize .binary64 (n.toUInt64.toNat : Int) 0 .positive) = _
  rw [same]

theorem zero_le_toFloat {n : Nat} (small : n < 2 ^ 53) : 0.0 ≤ n.toUInt64.toFloat := by
  rw [zero_le_iff, value_toFloat small]
  exact (nonnegative_normalize 0 (Int.natCast_nonneg n)).repacked

theorem value_ofNat {n : Nat} (small : n < 2 ^ 53) :
    value (Float.ofNat n) = value n.toUInt64.toFloat := by
  rw [ofNat_eq small]
  exact value_mul_one (zero_le_toFloat small)

theorem zero_le_ofNat {n : Nat} (small : n < 2 ^ 53) : 0.0 ≤ Float.ofNat n := by
  rw [zero_le_iff, value_ofNat small, ← zero_le_iff]
  exact zero_le_toFloat small

/-- How many of the least double above zero come to one. -/
def unitsOfOne : Nat :=
  2 ^ ((0 : Int) + 1074).toNat

/-- A natural number of at most 53 digits loses none of them. -/
theorem count_ofNat {n : Nat} (small : n < 2 ^ 53) :
    count (Float.ofNat n) = (n * unitsOfOne : Nat) := by
  unfold count
  rw [value_ofNat small, value_toFloat small]
  rcases Nat.eq_zero_or_pos n with rfl | pos
  · rw [Nat.zero_mul]
    exact congrArg units (repacked_zero _)
  · have order : compare (n : Int) 0 = .gt := Int.compare_eq_gt.2 (by omega)
    have short : n.log2 ≤ 52 := by
      have := (Nat.log2_lt (Nat.ne_of_gt pos)).2 small
      omega
    have fits : (n * unitsOfOne).log2 < 2098 := by
      rw [unitsOfOne, log2_mul_two_pow _ pos]
      omega
    rw [UnpackedFloat.normalize, order]
    show units (repacked (UnpackedFloat.round .binary64 .positive n 0)) = _
    rw [units_round .positive pos (by omega), rounded_coe, nearest_mul_two_pow short, ← unitsOfOne,
      clipped, if_pos fits]

theorem isFinite_ofNat {n : Nat} (small : n < 2 ^ 53) : (Float.ofNat n).isFinite = true := by
  rw [isFinite_iff_count, count_ofNat small]
  exact ENat.natCast_ne_top _

theorem ofNat_lt_ofNat {m n : Nat} (small : n < 2 ^ 53) (lt : m < n) :
    Float.ofNat m < Float.ofNat n := by
  have small' : m < 2 ^ 53 := Nat.lt_trans lt small
  rw [lt_iff_count (zero_le_ofNat small') (zero_le_ofNat small), count_ofNat small,
    count_ofNat small', Nat.cast_lt]
  exact Nat.mul_lt_mul_of_pos_right lt (Nat.two_pow_pos _)

end QueryCost.Double
