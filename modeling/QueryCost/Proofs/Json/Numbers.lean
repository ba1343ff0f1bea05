/-
# QueryCost.Proofs.Json.Numbers -- which doubles are written as numbers

A double is spelled from its bits, and it is finite unless all bits of its exponent are
set.  So exactly the finite doubles are written as numerals (`isNumber_double_iff`); any
other is written as `null`, which no reader takes for an amount.
-/
import QueryCost.Proofs.Double.Packing
import QueryCost.Proofs.Json.Rendering

namespace QueryCost

open Float.Model.UnpackedFloat
open QueryCost.Double (ofFields unpack_eq_ofFields value)

set_option autoImplicit false

/-! ## Bits -/

namespace Double

/-- A double is finite unless its exponent field is full. -/
theorem isFinite_iff_exponent (x : Float) :
    x.isFinite = true ↔ x.toBits.toNat / Decimal.fractions % 2048 ≠ 2047 := by
  have field : (@unpackExponent .binary64 x.toModel.toBits.toBitVec).toNat =
      x.toBits.toNat / Decimal.fractions % 2048 := by
    show (BitVec.extractLsb 62 52 x.toModel.toBits.toBitVec).toNat = _
    rw [BitVec.extractLsb_toNat, Nat.shiftRight_eq_div_pow]
    rfl
  show (unpack .binary64 x.toModel.toBits.toBitVec).isFinite = true ↔ _
  rw [unpack_eq_ofFields, isFinite_ofFields, ← field, Ne, ← BitVec.toNat_inj]
  rfl

end Double

namespace Decimal

theorem Reading.isFinite_iff (x : Float) :
    (∃ negative d, Reading.ofFloat x = .finite negative d) ↔ x.isFinite = true := by
  rw [Double.isFinite_iff_exponent]
  unfold Reading.ofFloat
  dsimp only
  by_cases full : x.toBits.toNat / fractions % 2048 = 2047
  · rw [if_pos full]
    refine iff_of_false ?_ (fun other => other full)
    rintro ⟨negative, d, reading⟩
    split at reading <;> cases reading
  · rw [if_neg full]
    refine iff_of_true ?_ full
    split <;> exact ⟨_, _, rfl⟩

end Decimal

/-! ## Numerals -/

namespace Json

open QueryCost.Decimal

/-- A value that is written as a number. -/
def IsNumber (j : Json) : Prop :=
  ∃ n, tree j = .number n

theorem doubleTree_of_isFinite {x : Float} (finite : x.isFinite = true) :
    ∃ n, doubleTree x = .number n := by
  obtain ⟨negative, d, reading⟩ := (Reading.isFinite_iff x).2 finite
  obtain ⟨n, strict, text⟩ := exists_numeral_of_finite reading
  have read : Numeral.read? (n.text ++ []) = some (n, []) :=
    Numeral.read?_text_append strict nofun
  rw [List.append_nil] at read
  exact ⟨n, by rw [doubleTree, ← text, read]⟩

theorem doubleTree_of_not_isFinite {x : Float} (other : ¬ x.isFinite = true) :
    doubleTree x = .null := by
  have null : jsonText x = "null" := jsonText_of_not_finite fun negative d reading =>
    other ((Reading.isFinite_iff x).1 ⟨negative, d, reading⟩)
  rw [doubleTree, null]
  rfl

/-- **Exactly the finite doubles are written as numbers.** -/
theorem isNumber_double_iff (x : Float) : IsNumber (.double x) ↔ x.isFinite = true := by
  constructor
  · rintro ⟨n, number⟩
    by_contra other
    rw [tree, doubleTree_of_not_isFinite other] at number
    cases number
  · exact doubleTree_of_isFinite

/-- Only a finite double reads back. -/
theorem ReadsBack.isFinite {x : Float} (back : ReadsBack x) : x.isFinite = true := by
  by_contra other
  rw [readsBack_iff, doubleTree_of_not_isFinite other] at back
  cases back

end Json

end QueryCost
