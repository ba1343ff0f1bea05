/-
# QueryCost.Proofs.Double.Order -- how doubles compare

Every two doubles that are numbers compare, and one that is not a number compares
with none: it is not greater than a ceiling, nor is it within one.  Whether a double
is zero, at least zero, infinite or no number is read off its value.
-/
import QueryCost.Proofs.Double.Packing

namespace QueryCost.Double

open Float.Model
open Float.Model.UnpackedFloat

set_option autoImplicit false

/-! ## Comparing -/

theorem le_iff (x y : Float) : x ≤ y ↔ UnpackedFloat.le (value x) (value y) = true := by
  show decide (x.toModel ≤ y.toModel) = true ↔ _
  rw [decide_eq_true_iff]
  rfl

theorem lt_iff (x y : Float) : x < y ↔ UnpackedFloat.lt (value x) (value y) = true := by
  show decide (x.toModel < y.toModel) = true ↔ _
  rw [decide_eq_true_iff]
  rfl

theorem isNaN_iff (x : Float) : x.isNaN = true ↔ value x = .notANumber :=
  UnpackedFloat.isNaN_iff

theorem compare_notANumber (u : UnpackedFloat) :
    UnpackedFloat.compare .notANumber u = none ∧ UnpackedFloat.compare u .notANumber = none := by
  cases u with
  | infinity s => cases s <;> exact ⟨rfl, rfl⟩
  | finite s m e pos => cases s <;> exact ⟨rfl, rfl⟩
  | _ => exact ⟨rfl, rfl⟩

theorem then_compare_swap (e e' : Int) (m m' : Nat) :
    (compare e' e).then (compare m' m) = ((compare e e').then (compare m m')).swap := by
  rw [Ordering.swap_then, Int.compare_swap, Nat.compare_swap]

/-- Two numbers compare, and the other way round they compare the other way. -/
theorem compare_swap {u v : UnpackedFloat} (number : u ≠ .notANumber)
    (number' : v ≠ .notANumber) :
    ∃ o, UnpackedFloat.compare u v = some o ∧ UnpackedFloat.compare v u = some o.swap := by
  cases u with
  | notANumber => exact absurd rfl number
  | infinity s =>
      cases v with
      | notANumber => exact absurd rfl number'
      | infinity s' => cases s <;> cases s' <;> exact ⟨_, rfl, rfl⟩
      | zero s' => cases s <;> exact ⟨_, rfl, rfl⟩
      | finite s' m e pos => cases s <;> cases s' <;> exact ⟨_, rfl, rfl⟩
  | zero s =>
      cases v with
      | notANumber => exact absurd rfl number'
      | infinity s' => cases s' <;> exact ⟨_, rfl, rfl⟩
      | zero s' => exact ⟨_, rfl, rfl⟩
      | finite s' m e pos => cases s' <;> exact ⟨_, rfl, rfl⟩
  | finite s m e pos =>
      cases v with
      | notANumber => exact absurd rfl number'
      | infinity s' => cases s <;> cases s' <;> exact ⟨_, rfl, rfl⟩
      | zero s' => cases s <;> exact ⟨_, rfl, rfl⟩
      | finite s' m' e' pos' =>
          have turned := then_compare_swap e e' m m'
          cases s with
          | negative =>
              cases s' with
              | negative =>
                  refine ⟨_, rfl, ?_⟩
                  show some ((compare e' e).then (compare m' m)).swap = _
                  rw [turned]
              | positive => exact ⟨_, rfl, rfl⟩
          | positive =>
              cases s' with
              | negative => exact ⟨_, rfl, rfl⟩
              | positive =>
                  refine ⟨_, rfl, ?_⟩
                  show some ((compare e' e).then (compare m' m)) = _
                  rw [turned]

theorem not_lt_iff_le {x y : Float} (number : x.isNaN = false) (number' : y.isNaN = false) :
    ¬ y < x ↔ x ≤ y := by
  have isNumber : ∀ z : Float, z.isNaN = false → value z ≠ .notANumber := by
    intro z number no
    rw [← isNaN_iff, number] at no
    cases no
  obtain ⟨o, forth, back⟩ := compare_swap (isNumber x number) (isNumber y number')
  rw [le_iff, lt_iff, UnpackedFloat.le, UnpackedFloat.lt, forth, back]
  cases o <;> decide

theorem not_le_of_isNaN {x : Float} (y : Float) (none : x.isNaN = true) : ¬ x ≤ y := by
  rw [isNaN_iff] at none
  rw [le_iff, UnpackedFloat.le, none, (compare_notANumber _).1]
  decide

theorem not_lt_of_isNaN {x : Float} (y : Float) (none : x.isNaN = true) : ¬ y < x := by
  rw [isNaN_iff] at none
  rw [lt_iff, UnpackedFloat.lt, none, (compare_notANumber _).2]
  decide

/-! ## Kinds of values -/

/-- A value that is at least zero; both zeros are. -/
inductive Nonnegative : UnpackedFloat → Prop
  | infinity : Nonnegative (.infinity .positive)
  | zero (s : Sign) : Nonnegative (.zero s)
  | finite (m : Nat) (e : Int) (pos : 0 < m) : Nonnegative (.finite .positive m e pos)

theorem zero_le_iff (x : Float) : 0.0 ≤ x ↔ Nonnegative (value x) := by
  have zero : value 0.0 = .zero .positive := rfl
  rw [le_iff, zero]
  generalize value x = u
  constructor
  · intro le
    cases u with
    | notANumber => cases le
    | zero s => exact .zero s
    | infinity s =>
        cases s with
        | negative => cases le
        | positive => exact .infinity
    | finite s m e pos =>
        cases s with
        | negative => cases le
        | positive => exact .finite m e pos
  · intro nonnegative
    cases nonnegative <;> rfl

theorem beq_zero_iff (x : Float) : (x == 0) = true ↔ ∃ s, value x = .zero s := by
  have zero : value 0 = .zero .positive := rfl
  show UnpackedFloat.beq (value x) (value 0) = true ↔ _
  rw [zero]
  generalize value x = u
  constructor
  · intro equal
    cases u with
    | notANumber => cases equal
    | zero s => exact ⟨s, rfl⟩
    | infinity s => cases s <;> cases equal
    | finite s m e pos => cases s <;> cases equal
  · rintro ⟨s, rfl⟩
    rfl

/-- Only one is equal to one: it has no second double, as zero has. -/
theorem beq_one_iff (x : Float) : (x == 1) = true ↔ x = 1 := by
  have one : value 1 = .finite .positive (2 ^ 52) (-52) (Nat.two_pow_pos 52) := rfl
  constructor
  · intro equal
    have equal : UnpackedFloat.beq (value x) (value 1) = true := equal
    apply eq_of_value
    rw [one] at equal ⊢
    generalize value x = u at equal ⊢
    cases u with
    | notANumber => cases equal
    | zero s => cases equal
    | infinity s => cases s <;> cases equal
    | finite s m e pos =>
        cases s with
        | negative => cases equal
        | positive =>
            have order : (compare e (-52)).then (compare m (2 ^ 52)) = .eq :=
              Option.some.inj (eq_of_beq equal)
            rw [Ordering.then_eq_eq, Int.compare_eq_eq, Nat.compare_eq_eq] at order
            obtain ⟨rfl, rfl⟩ := order
            rfl
  · rintro rfl
    rfl

theorem isInf_iff (x : Float) : x.isInf = true ↔ ∃ s, value x = .infinity s := by
  show (value x).isInf = true ↔ _
  cases value x <;> simp [UnpackedFloat.isInf]

theorem isNaN_eq_false_of_nonneg {x : Float} (nonneg : 0.0 ≤ x) : x.isNaN = false := by
  rw [Bool.eq_false_iff]
  intro none
  rw [zero_le_iff, (isNaN_iff x).1 none] at nonneg
  cases nonneg

theorem isFinite_iff (x : Float) : x.isFinite = true ↔ x.isNaN = false ∧ x.isInf = false := by
  show (value x).isFinite = true ↔ (value x).isNaN = false ∧ (value x).isInf = false
  cases value x <;> simp [UnpackedFloat.isFinite, UnpackedFloat.isNaN, UnpackedFloat.isInf]

end QueryCost.Double
