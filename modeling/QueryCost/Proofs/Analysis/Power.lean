/-
# QueryCost.Proofs.Analysis.Power -- repeated squaring, round by round

A power is formed by a loop.  `Squaring` is the state of the loop, `round` is one round of
it, and `Ends` says that it ends, after how many rounds and with what.  It always ends,
after as many rounds as the exponent has binary digits, and with the power of the tariff
(`ends_start_iff`); this does not ask anything of the products, so it holds of doubles.

What a run keeps follows from what one round keeps: what is true of the result and the
base and passes to products is true of the power (`Ends.of_closed`), and where products
are associative, the result times the power that is left to form never changes
(`Ends.eq_product`).  So there the loop ends with the power (`power_eq_pow`).

A depth factor of one is not raised.  Its powers are one wherever one times one is, so the
multiplier of a depth is what the loop ends with for this factor too.
-/
import Mathlib.Algebra.Ring.Rat
import QueryCost.Analysis.Tariff
import QueryCost.Proofs.Double.Order

namespace QueryCost.Analysis

set_option autoImplicit false

/-! ## The loop -/

/-- Where the loop stands at the start of a round. -/
structure Squaring (K : Type) where
  result : K
  base : K
  /-- The exponent without the digits that were taken in. -/
  left : Nat

namespace Squaring

section Loop

variable {K : Type} [Mul K]

def start [One K] (base : K) (n : Nat) : Squaring K :=
  ⟨1, base, n⟩

/-- The result after the lowest digit was taken in. -/
def withDigit (s : Squaring K) : K :=
  if s.left % 2 = 1 then s.result * s.base else s.result

/-- One round: with the last digit the loop has its result, before it is squared. -/
def round (s : Squaring K) : K ⊕ Squaring K :=
  if s.left / 2 = 0 then .inl s.withDigit
  else .inr ⟨s.withDigit, s.base * s.base, s.left / 2⟩

/-- The loop ends after a number of rounds with a result. -/
inductive Ends : Squaring K → Nat → K → Prop
  | last {s : Squaring K} {r : K} (done : s.round = .inl r) : Ends s 1 r
  | next {s s' : Squaring K} {n : Nat} {r : K} (goesOn : s.round = .inr s') (ends : Ends s' n r) :
      Ends s (n + 1) r

theorem round_eq_inl_iff (s : Squaring K) (r : K) :
    s.round = .inl r ↔ s.left < 2 ∧ r = s.withDigit := by
  unfold round
  by_cases last : s.left / 2 = 0
  · have few : s.left < 2 := by omega
    simp [last, few, eq_comm]
  · have many : ¬ s.left < 2 := by omega
    simp [last, many]

theorem round_eq_inr_iff (s s' : Squaring K) :
    s.round = .inr s' ↔
      2 ≤ s.left ∧ s' = ⟨s.withDigit, s.base * s.base, s.left / 2⟩ := by
  unfold round
  by_cases last : s.left / 2 = 0
  · have few : ¬ 2 ≤ s.left := by omega
    simp [last, few]
  · have many : 2 ≤ s.left := by omega
    simp [last, many, eq_comm]

/-- A loop ends in one way. -/
theorem Ends.unique {s : Squaring K} {n n' : Nat} {r r' : K} (ends : Ends s n r)
    (ends' : Ends s n' r') : n = n' ∧ r = r' := by
  induction ends generalizing n' with
  | last done =>
      cases ends' with
      | last done' => exact ⟨rfl, Sum.inl.inj (done.symm.trans done')⟩
      | next goesOn' _ => cases done.symm.trans goesOn'
  | next goesOn _ ih =>
      cases ends' with
      | last done' => cases goesOn.symm.trans done'
      | next goesOn' ends' =>
          obtain rfl := Sum.inr.inj (goesOn.symm.trans goesOn')
          obtain ⟨rfl, rfl⟩ := ih ends'
          exact ⟨rfl, rfl⟩

/-- The loop ends, since every round but the last takes a digit off the exponent. -/
theorem ends_multiplyPower (n : Nat) : ∀ result base : K,
    Ends ⟨result, base, n⟩ (n.log2 + 1) (multiplyPower result base n) := by
  induction n using Nat.strongRecOn with
  | ind n ih =>
      intro result base
      rw [multiplyPower, Nat.log2_def]
      by_cases last : n / 2 = 0
      · have few : n < 2 := by omega
        rw [if_pos last, if_neg (Nat.not_le.2 few)]
        exact .last ((round_eq_inl_iff _ _).2 ⟨few, rfl⟩)
      · have many : 2 ≤ n := by omega
        rw [if_neg last, if_pos many]
        have later := ih (n / 2) (by omega) (if n % 2 = 1 then result * base else result)
          (base * base)
        exact .next ((round_eq_inr_iff _ _).2 ⟨many, rfl⟩) later

theorem ends_start_iff [One K] (base : K) (n rounds : Nat) (r : K) :
    Ends (start base n) rounds r ↔ rounds = n.log2 + 1 ∧ r = power base n := by
  have ends : Ends (start base n) (n.log2 + 1) (power base n) := ends_multiplyPower n 1 base
  constructor
  · exact fun ends' => ends'.unique ends
  · rintro ⟨rfl, rfl⟩
    exact ends

/-! ## What products keep -/

section Closed

variable {P : K → Prop} (closed : ∀ x y, P x → P y → P (x * y))

include closed

theorem withDigit_of_closed {s : Squaring K} (result : P s.result) (base : P s.base) :
    P s.withDigit := by
  unfold withDigit
  split
  · exact closed _ _ result base
  · exact result

/-- What holds of the result and the base and is kept by products holds at the end. -/
theorem Ends.of_closed {s : Squaring K} {n : Nat} {r : K} (ends : Ends s n r)
    (result : P s.result) (base : P s.base) : P r := by
  induction ends with
  | last done =>
      obtain ⟨-, rfl⟩ := (round_eq_inl_iff _ _).1 done
      exact withDigit_of_closed closed result base
  | next goesOn _ ih =>
      obtain ⟨-, rfl⟩ := (round_eq_inr_iff _ _).1 goesOn
      exact ih (withDigit_of_closed closed result base) (closed _ _ base base)

end Closed

end Loop

/-! ## Associative products -/

section Associative

variable {K : Type} [Monoid K]

/-- The result times the power that is left to form. -/
def product (s : Squaring K) : K :=
  s.result * s.base ^ s.left

/-- The lowest digit counts the base, the others count its square. -/
theorem withDigit_mul_pow (s : Squaring K) :
    s.withDigit * (s.base * s.base) ^ (s.left / 2) = s.product := by
  have digits : s.left % 2 + 2 * (s.left / 2) = s.left := Nat.mod_add_div s.left 2
  have lowest : s.withDigit = s.result * s.base ^ (s.left % 2) := by
    unfold withDigit
    rcases Nat.mod_two_eq_zero_or_one s.left with even | odd
    · rw [even, if_neg Nat.zero_ne_one, pow_zero, mul_one]
    · rw [odd, if_pos rfl, pow_one]
  calc s.withDigit * (s.base * s.base) ^ (s.left / 2)
      = s.result * (s.base ^ (s.left % 2) * (s.base ^ 2) ^ (s.left / 2)) := by
        rw [lowest, mul_assoc, pow_two]
    _ = s.result * s.base ^ (s.left % 2 + 2 * (s.left / 2)) := by rw [← pow_mul, ← pow_add]
    _ = s.product := by rw [digits, product]

/-- A round keeps the product, and after the last one it is the result. -/
theorem Ends.eq_product {s : Squaring K} {n : Nat} {r : K} (ends : Ends s n r) :
    r = s.product := by
  induction ends with
  | @last s _ done =>
      obtain ⟨few, rfl⟩ := (round_eq_inl_iff _ _).1 done
      have none : s.left / 2 = 0 := by omega
      rw [← withDigit_mul_pow, none, pow_zero, mul_one]
  | @next s _ _ _ goesOn _ ih =>
      obtain ⟨-, rfl⟩ := (round_eq_inr_iff _ _).1 goesOn
      exact ih.trans (withDigit_mul_pow s)

end Associative

end Squaring

theorem power_eq_pow {K : Type} [Monoid K] (base : K) (n : Nat) : power base n = base ^ n :=
  (Squaring.ends_multiplyPower n 1 base).eq_product.trans (one_mul _)

/-! ## Depth multipliers -/

/-- All powers of one are one where its square is. -/
theorem one_power {K : Type} [Mul K] [One K] (square : (1 : K) * 1 = 1) (n : Nat) :
    power (1 : K) n = 1 := by
  refine (Squaring.ends_multiplyPower n 1 1).of_closed (P := fun x => x = 1) ?_ rfl rfl
  rintro x y rfl rfl
  exact square

namespace Tariff

/-- The factor that is not raised would be raised to the same. -/
theorem depthMultiplier_eq_power {K : Type} [Mul K] [One K] [BEq K] (t : Tariff K)
    (unit : (t.depthFactor == 1) = true → t.depthFactor = 1) (square : (1 : K) * 1 = 1)
    (depth : Nat) : t.depthMultiplier depth = power t.depthFactor depth := by
  unfold depthMultiplier
  split
  · next one => rw [unit one, one_power square]
  · rfl

theorem depthMultiplier_eq_pow {K : Type} [Monoid K] [BEq K] [LawfulBEq K] (t : Tariff K)
    (depth : Nat) : t.depthMultiplier depth = t.depthFactor ^ depth := by
  rw [depthMultiplier_eq_power t eq_of_beq (mul_one 1), power_eq_pow]

/-- Doubles are compared with one exactly, and the square of one is not rounded. -/
theorem depthMultiplier_eq_power_of_doubles (t : Tariff Float) (depth : Nat) :
    t.depthMultiplier depth = power t.depthFactor depth :=
  depthMultiplier_eq_power t (Double.beq_one_iff t.depthFactor).1 (by decide +kernel) depth

end Tariff

theorem log2_add_one_le {n digits : Nat} (short : n < 2 ^ digits) (some : 0 < digits) :
    n.log2 + 1 ≤ digits := by
  by_cases zero : n = 0
  · rw [zero, Nat.log2_zero]
    omega
  · have := (Nat.log2_lt zero).2 short
    omega

/-- **The multiplier of a depth is the power of the depth factor.**  For an exponent of at
most 31 binary digits the loop ends within 31 rounds.  Where products are associative it
ends with the power, and so is every charge formed with the power; on doubles it ends with
what the tariff multiplies by, whether or not the factor is one. -/
theorem depthMultiplier_is_power_by_squaring (depth : Nat) (fits : depth < 2 ^ 31) :
    (∀ {K : Type} [Monoid K] [BEq K] [LawfulBEq K] (t : Tariff K),
      t.depthMultiplier depth = t.depthFactor ^ depth ∧
        (∀ name sized, t.charge name depth sized =
          t.base name * t.depthFactor ^ depth * t.listMultiplier sized) ∧
        ∃ rounds ≤ 31, ∀ n r, Squaring.Ends (.start t.depthFactor depth) n r ↔
          n = rounds ∧ r = t.depthFactor ^ depth) ∧
      ∀ t : Tariff Float, ∃ rounds ≤ 31, ∀ n r,
        Squaring.Ends (.start t.depthFactor depth) n r ↔
          n = rounds ∧ r = t.depthMultiplier depth := by
  have within := log2_add_one_le fits (by decide)
  constructor
  · intro K _ _ _ t
    refine ⟨t.depthMultiplier_eq_pow depth, fun name sized => ?_, depth.log2 + 1, within,
      fun n r => ?_⟩
    · rw [Tariff.charge, Tariff.depthMultiplier_eq_pow]
    · rw [Squaring.ends_start_iff, power_eq_pow]
  · intro t
    refine ⟨depth.log2 + 1, within, fun n r => ?_⟩
    rw [Squaring.ends_start_iff, Tariff.depthMultiplier_eq_power_of_doubles]

theorem depthMultiplier_is_power_by_squaring_threeHalves :
    6 < 2 ^ 31 ∧
      ((⟨∅, 1, 3 / 2, 10⟩ : Tariff ℚ).depthMultiplier 6 = 729 / 64 ∧
        ∃ rounds ≤ 31, Squaring.Ends (.start (3 / 2 : ℚ) 6) rounds (729 / 64)) ∧
      ∃ rounds ≤ 31, Squaring.Ends (.start (1.0 : Float) 6) rounds 1.0 := by
  have all := depthMultiplier_is_power_by_squaring 6 (by decide)
  have power : (3 / 2 : ℚ) ^ 6 = 729 / 64 := by norm_num
  obtain ⟨multiplier, -, rounds, few, ends⟩ := all.1 (⟨∅, 1, 3 / 2, 10⟩ : Tariff ℚ)
  obtain ⟨rounds', few', ends'⟩ := all.2 ⟨∅, 1.0, 1.0, 10.0⟩
  exact ⟨by decide, ⟨multiplier.trans power, rounds, few, (ends _ _).2 ⟨rfl, power.symm⟩⟩,
    rounds', few', (ends' _ _).2 ⟨rfl, rfl⟩⟩

end QueryCost.Analysis
