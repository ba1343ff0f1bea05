/-
# QueryCost.Proofs.Double.Packing -- doubles and the values packed in them

An operation on doubles unpacks them, works on the values and packs the outcome.
`repacked` is what is read back of a packed value: a value that a double has is read
back as it is, one that is too great as an infinity.  What is read from any double
has a mantissa of at most 53 digits, with fewer only at the lowest exponent.
-/
import QueryCost.Proofs.Double.Rounding

namespace QueryCost.Double

open Float.Model
open Float.Model.UnpackedFloat

set_option autoImplicit false

/-- The value that a double has. -/
def value (x : Float) : UnpackedFloat :=
  x.toModel.unpack

/-- What is read back of a value after it was packed. -/
def repacked (u : UnpackedFloat) : UnpackedFloat :=
  UnpackedFloat.unpack .binary64 (UnpackedFloat.pack .binary64 u)

theorem value_add (x y : Float) :
    value (x + y) = repacked (UnpackedFloat.add .binary64 (value x) (value y)) := rfl

theorem value_mul (x y : Float) :
    value (x * y) = repacked (UnpackedFloat.mul .binary64 (value x) (value y)) := rfl

/-! ## Parts -/

theorem toNat_leading_append (m : BitVec 52) : (1#1 ++ m).toNat = 2 ^ 52 + m.toNat := by
  rw [BitVec.toNat_append, ← Nat.shiftLeft_add_eq_or_of_lt m.isLt, Nat.shiftLeft_eq]
  rfl

theorem toNat_leading_pos (m : BitVec 52) : 0 < (1#1 ++ m).toNat := by
  rw [toNat_leading_append]
  omega

theorem toNat_pos_of_ne_zero {m : BitVec 52} (nonzero : m ≠ 0#52) : 0 < m.toNat := by
  rw [BitVec.toNat_pos, BitVec.pos_iff_ne_zero]
  exact nonzero

/-- The value with a sign, an exponent field and a mantissa field. -/
def ofFields (s : Sign) (e : BitVec 11) (m : BitVec 52) : UnpackedFloat :=
  if e = -1#11 then
    if m = 0#52 then .infinity s else .notANumber
  else if e = 0#11 then
    if h : m = 0#52 then .zero s else .finite s m.toNat (-1074) (toNat_pos_of_ne_zero h)
  else .finite s (1#1 ++ m).toNat ((e.toNat : Int) - 1075) (toNat_leading_pos m)

theorem unpack_eq_ofFields (b : BitVec 64) :
    UnpackedFloat.unpack .binary64 b =
      ofFields (Sign.ofBitVec (@unpackSign .binary64 b))
        (@unpackExponent .binary64 b) (@unpackMantissa .binary64 b) := by
  unfold UnpackedFloat.unpack ofFields
  by_cases full : @unpackExponent .binary64 b = -1#11
  · rw [if_pos full, if_pos full]
  · rw [if_neg full, if_neg full]
    by_cases empty : @unpackExponent .binary64 b = 0#11
    · rw [if_pos empty, if_pos empty]
      simp only [empty]
      rfl
    · rw [if_neg empty, if_neg empty]
      rfl

theorem unpack_packComponents (s : Sign) (e : BitVec 11) (m : BitVec 52) :
    UnpackedFloat.unpack .binary64 (packComponents .binary64 s e m) = ofFields s e m := by
  rw [unpack_eq_ofFields, unpackSign_packComponents, unpackExponent_packComponents,
    unpackMantissa_packComponents, Sign.ofBitVec_toBitVec]

/-- A value is finite unless all bits of its exponent are set. -/
theorem isFinite_ofFields (s : Sign) (e : BitVec 11) (m : BitVec 52) :
    (ofFields s e m).isFinite = true ↔ e ≠ -1#11 := by
  unfold ofFields
  by_cases full : e = -1#11
  · rw [if_pos full]
    split <;> exact iff_of_false nofun (fun other => other full)
  · rw [if_neg full]
    split
    · split <;> exact iff_of_true rfl full
    · exact iff_of_true rfl full

/-! ## Values that doubles have -/

/-- A mantissa and an exponent that a double has room for. -/
structure Fits (m : Nat) (e : Int) : Prop where
  digits : m.log2 ≤ 52
  lowest : -1074 ≤ e
  highest : e ≤ 971
  leading : m.log2 = 52 ∨ e = -1074

theorem log2_mantissa (m : BitVec 52) : m.toNat.log2 ≤ 51 := by
  by_cases zero : m.toNat = 0
  · rw [zero, Nat.log2_zero]
    omega
  · have short := (Nat.log2_lt zero).2 m.isLt
    omega

theorem log2_leading_append (m : BitVec 52) : (1#1 ++ m).toNat.log2 = 52 := by
  have small : m.toNat < 2 ^ 52 := m.isLt
  rw [toNat_leading_append, Nat.log2_eq_iff (by omega)]
  omega

theorem toNat_lt_of_ne_full {e : BitVec 11} (full : e ≠ -1#11) : e.toNat ≤ 2046 := by
  have small : e.toNat < 2048 := e.isLt
  have other : e.toNat ≠ 2047 := fun same => full (BitVec.eq_of_toNat_eq (by rw [same]; rfl))
  omega

theorem toNat_pos_of_ne_empty {e : BitVec 11} (empty : e ≠ 0#11) : 1 ≤ e.toNat := by
  have other : e.toNat ≠ 0 := fun same => empty (BitVec.eq_of_toNat_eq (by rw [same]; rfl))
  omega

theorem fits_of_ofFields {s s' : Sign} {e : BitVec 11} {m : BitVec 52} {m' : Nat} {e' : Int}
    {pos : 0 < m'} (has : ofFields s e m = .finite s' m' e' pos) : Fits m' e' := by
  unfold ofFields at has
  by_cases full : e = -1#11
  · rw [if_pos full] at has
    split at has <;> cases has
  · rw [if_neg full] at has
    by_cases empty : e = 0#11
    · rw [if_pos empty] at has
      split at has
      · cases has
      · cases has
        have short := log2_mantissa m
        exact ⟨by omega, by omega, by omega, .inr rfl⟩
    · rw [if_neg empty] at has
      cases has
      have high := toNat_lt_of_ne_full full
      have low := toNat_pos_of_ne_empty empty
      exact ⟨by rw [log2_leading_append], by omega, by omega, .inl (log2_leading_append m)⟩

theorem fits_of_value {x : Float} {s : Sign} {m : Nat} {e : Int} {pos : 0 < m}
    (has : value x = .finite s m e pos) : Fits m e := by
  have fields := unpack_eq_ofFields x.toModel.toBits.toBitVec
  exact fits_of_ofFields (fields.symm.trans has)

/-- A double is its value packed, also the one that is not a number. -/
theorem pack_value (x : Float) :
    UnpackedFloat.pack .binary64 (value x) = x.toModel.toBits.toBitVec := by
  obtain ⟨⟨bits, valid⟩⟩ := x
  have packed := @pack_unpack .binary64 bits.toBitVec (by decide)
  by_cases none : @isNaNBits .binary64 bits.toBitVec = true
  · rw [if_pos none] at packed
    rw [isNaNBits, decide_eq_true_iff] at none
    exact packed.trans (valid.eq_packedNaN none.1 none.2).symm
  · rw [if_neg none] at packed
    exact packed

theorem eq_of_value {x y : Float} (same : value x = value y) : x = y := by
  have bits : x.toModel.toBits.toBitVec = y.toModel.toBits.toBitVec := by
    rw [← pack_value, ← pack_value, same]
  obtain ⟨⟨b, valid⟩⟩ := x
  obtain ⟨⟨b', valid'⟩⟩ := y
  obtain rfl : b = b' := UInt64.toBitVec_inj.1 bits
  rfl

/-! ## Reading back -/

theorem repacked_notANumber : repacked .notANumber = .notANumber := unpack_packedNaN

theorem repacked_infinity (s : Sign) : repacked (.infinity s) = .infinity s := by
  cases s <;> rfl

theorem repacked_zero (s : Sign) : repacked (.zero s) = .zero s := unpack_packedZero

/-- A great value is packed as an infinity, one with a leading digit with its
exponent, and any other without. -/
theorem pack_finite (s : Sign) (m : Nat) (e : Int) (pos : 0 < m) :
    UnpackedFloat.pack .binary64 (.finite s m e pos) =
      if 972 ≤ e then packedInfinity .binary64 s
      else if m.log2 = 52 then
        packComponents .binary64 s (BitVec.ofNat 11 (e + 1075).toNat) (BitVec.ofNat 52 m)
      else packComponents .binary64 s 0#11 (BitVec.ofNat 52 m) := by
  have biased : (e + (Format.binary64.exponentBias : Int)
      + (Format.binary64.mantissaBitsWithoutImplicit : Int)).toNat = (e + 1075).toNat := by
    have bias : (Format.binary64.exponentBias : Int) = 1023 := rfl
    have bits : (Format.binary64.mantissaBitsWithoutImplicit : Int) = 52 := rfl
    rw [bias, bits]
    omega
  have great : 2 ^ Format.binary64.exponentBits ≤ (e + 1075).toNat + 1 ↔ 972 ≤ e := by
    have values : (2 : Nat) ^ Format.binary64.exponentBits = 2048 := by decide
    rw [values]
    omega
  have leading : m.log2 + 1 = Format.binary64.mantissaBits ↔ m.log2 = 52 := by
    have digits : Format.binary64.mantissaBits = 53 := by decide
    rw [digits]
    omega
  simp only [UnpackedFloat.pack, biased, great, leading]

theorem repacked_of_great {s : Sign} {m : Nat} {e : Int} {pos : 0 < m} (great : 972 ≤ e) :
    repacked (.finite s m e pos) = .infinity s := by
  rw [repacked, pack_finite, if_pos great]
  exact repacked_infinity s

theorem ofNat_ne_full {n : Nat} (small : n ≤ 2046) : BitVec.ofNat 11 n ≠ -1#11 := by
  intro same
  have full := congrArg BitVec.toNat same
  have other : (-1#11).toNat = 2047 := by decide
  rw [BitVec.toNat_ofNat, Nat.mod_eq_of_lt (by omega), other] at full
  omega

/-- A finite value keeps its sign and does not stop being a number. -/
theorem repacked_finite (s : Sign) (m : Nat) (e : Int) (pos : 0 < m) :
    repacked (.finite s m e pos) = .infinity s ∨ repacked (.finite s m e pos) = .zero s ∨
      ∃ m' e' pos', repacked (.finite s m e pos) = .finite s m' e' pos' := by
  by_cases great : 972 ≤ e
  · exact .inl (repacked_of_great great)
  · right
    have number : ∀ field : BitVec 11, field ≠ -1#11 →
        ofFields s field (BitVec.ofNat 52 m) = .zero s ∨
          ∃ m' e' pos', ofFields s field (BitVec.ofNat 52 m) = .finite s m' e' pos' := by
      intro field full
      unfold ofFields
      rw [if_neg full]
      by_cases empty : field = 0#11
      · rw [if_pos empty]
        by_cases zero : BitVec.ofNat 52 m = 0#52
        · exact .inl (dif_pos zero)
        · exact .inr ⟨_, _, toNat_pos_of_ne_zero zero, dif_neg zero⟩
      · rw [if_neg empty]
        exact .inr ⟨_, _, _, rfl⟩
    rw [repacked, pack_finite, if_neg great]
    by_cases leading : m.log2 = 52
    · rw [if_pos leading, unpack_packComponents]
      exact number _ (ofNat_ne_full (by omega))
    · rw [if_neg leading, unpack_packComponents]
      exact number _ (by decide)

theorem ofNat_toNat_of_leading {m : Nat} (leading : m.log2 = 52) :
    (1#1 ++ BitVec.ofNat 52 m).toNat = m := by
  have pos : m ≠ 0 := by
    intro zero
    rw [zero, Nat.log2_zero] at leading
    omega
  have low := (Nat.le_log2 (k := 52) pos).1 (by omega)
  have high := (Nat.log2_lt (k := 53) pos).1 (by omega)
  rw [toNat_leading_append, BitVec.toNat_ofNat]
  omega

/-- A double reads back what it has room for. -/
theorem repacked_of_fits {s : Sign} {m : Nat} {e : Int} {pos : 0 < m} (fits : Fits m e) :
    repacked (.finite s m e pos) = .finite s m e pos := by
  obtain ⟨digits, lowest, highest, leading⟩ := fits
  rw [repacked, pack_finite, if_neg (by omega)]
  by_cases full : m.log2 = 52
  · have exponent : (BitVec.ofNat 11 (e + 1075).toNat).toNat = (e + 1075).toNat := by
      rw [BitVec.toNat_ofNat]
      omega
    have nonempty : BitVec.ofNat 11 (e + 1075).toNat ≠ 0#11 := by
      intro same
      have none := congrArg BitVec.toNat same
      rw [exponent, BitVec.toNat_zero] at none
      omega
    have back : (((e + 1075).toNat : Nat) : Int) - 1075 = e := by omega
    rw [if_pos full, unpack_packComponents, ofFields, if_neg (ofNat_ne_full (by omega)),
      if_neg nonempty]
    simp only [ofNat_toNat_of_leading full, exponent, back]
  · have lowest : e = -1074 := leading.resolve_left full
    have short : m < 2 ^ 52 := (Nat.log2_lt (Nat.ne_of_gt pos)).1 (by omega)
    have mantissa : (BitVec.ofNat 52 m).toNat = m := by
      rw [BitVec.toNat_ofNat]
      omega
    have nonzero : BitVec.ofNat 52 m ≠ 0#52 := by
      intro same
      have none := congrArg BitVec.toNat same
      rw [mantissa, BitVec.toNat_zero] at none
      omega
    rw [if_neg full, unpack_packComponents, ofFields, if_neg (by decide), if_pos rfl,
      dif_neg nonzero]
    simp only [mantissa, lowest]

end QueryCost.Double
