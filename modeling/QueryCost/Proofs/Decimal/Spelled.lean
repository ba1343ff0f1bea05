/-
# QueryCost.Proofs.Decimal.Spelled -- a finite double is spelled as a numeral

The text of a double is put together from digits: zeros are cut off behind them, a
point is set between them or zeros are filled in, or an exponent follows.  In JSON the
outcome is always a strict numeral (`exists_numeral_jsonText`), and where there is none
it is `null`.

This needs that there are digits in the first place.  The search for the shortest
decimal gives up after seventeen digits, but it never does so without an answer
(`shortest_digits_pos`): with seventeen digits the grid around a double is so fine that
of the two grid points beside it the nearer one rounds to it.  A point of the grid in
the interval is never zero, because the whole interval lies above zero.
-/
import Mathlib.Data.List.DropRight
import QueryCost.Decimal.Layout
import QueryCost.Proofs.Decimal.Strict

namespace QueryCost.Decimal

set_option autoImplicit false

/-! ## The size of a number and its digits -/

theorem pow_length_le {n : Nat} (pos : 0 < n) :
    Nat.pow 10 ((Text.decimalDigits n).length - 1) ≤ n := by
  by_cases single : (Text.decimalDigits n).length ≤ 1
  · have none : (Text.decimalDigits n).length - 1 = 0 := by omega
    rw [none]
    exact pos
  · have shorter := Nat.length_toDigits_le_iff (b := 10) (n := n)
      (k := (Text.decimalDigits n).length - 1) (by decide) (by omega)
    change (Text.decimalDigits n).length ≤ _ ↔ n < Nat.pow 10 _ at shorter
    omega

theorem lt_pow_length (n : Nat) : n < Nat.pow 10 (Text.decimalDigits n).length := by
  have positive : 0 < (Text.decimalDigits n).length :=
    List.length_pos_iff.2 Nat.toDigits_ne_nil
  exact (Nat.length_toDigits_le_iff (by decide) positive).1 (Nat.le_refl _)

/-- The leading exponent is no greater than that of the fraction. -/
theorem leadingExponent_le {numerator denominator : Nat} (pos : 0 < numerator)
    (pos' : 0 < denominator) :
    Nat.pow 10 (leadingExponent numerator denominator).toNat * denominator ≤
      numerator * Nat.pow 10 (-leadingExponent numerator denominator).toNat := by
  unfold leadingExponent
  split
  · next whole =>
    have digits := pow_length_le (Nat.div_pos whole pos')
    have front : ((Text.decimalDigits (numerator / denominator)).length - 1 : Int).toNat =
        (Text.decimalDigits (numerator / denominator)).length - 1 := by omega
    have none : (-((Text.decimalDigits (numerator / denominator)).length - 1 : Int)).toNat = 0 := by
      have positive : 0 < (Text.decimalDigits (numerator / denominator)).length :=
        List.length_pos_iff.2 Nat.toDigits_ne_nil
      omega
    rw [front, none]
    calc Nat.pow 10 ((Text.decimalDigits (numerator / denominator)).length - 1) * denominator
        ≤ numerator / denominator * denominator := Nat.mul_le_mul_right _ digits
      _ ≤ numerator := Nat.div_mul_le_self _ _
      _ = numerator * Nat.pow 10 0 := (Nat.mul_one _).symm
  · next below =>
    have less : numerator ≤ denominator := by omega
    have positive : 0 < (Text.decimalDigits (denominator / numerator)).length :=
      List.length_pos_iff.2 Nat.toDigits_ne_nil
    have digits := lt_pow_length (denominator / numerator)
    generalize (Text.decimalDigits (denominator / numerator)).length = places at positive digits
    dsimp only
    split
    · next exact =>
      have none : (1 - places : Int).toNat = 0 := by omega
      have back : (-(1 - places : Int)).toNat = places - 1 := by omega
      rw [none, back, exact]
      exact Nat.le_of_eq (Nat.one_mul _)
    · have none : (-(places : Int)).toNat = 0 := by omega
      have back : (- -(places : Int)).toNat = places := by omega
      rw [none, back]
      have above : denominator < numerator * (denominator / numerator + 1) := by
        have split := Nat.div_add_mod denominator numerator
        have rest := Nat.mod_lt denominator pos
        rw [Nat.mul_add, Nat.mul_one]
        omega
      calc Nat.pow 10 0 * denominator
          = denominator := Nat.one_mul _
        _ ≤ numerator * (denominator / numerator + 1) := Nat.le_of_lt above
        _ ≤ numerator * Nat.pow 10 places := Nat.mul_le_mul_left _ digits

/-! ## Grid points in an interval -/

namespace Interval

/-- A point that is strictly inside is contained, whether the ends belong to the interval or not. -/
theorem contains_of_lt {i : Interval} {c up down : Nat}
    (low : i.low * down < c * up * i.denominator) (high : c * up * i.denominator < i.high * down) :
    i.contains c up down = true := by
  unfold contains
  dsimp only
  split
  · rw [Bool.and_eq_true, decide_eq_true_iff, decide_eq_true_iff]
    exact ⟨Nat.le_of_lt low, Nat.le_of_lt high⟩
  · rw [Bool.and_eq_true, decide_eq_true_iff, decide_eq_true_iff]
    exact ⟨low, high⟩

theorem pos_of_contains {i : Interval} {c up down : Nat} (low : 0 < i.low * down)
    (inside : i.contains c up down = true) : 0 < c := by
  unfold contains at inside
  dsimp only at inside
  rw [Nat.pos_iff_ne_zero]
  rintro rfl
  rw [Nat.zero_mul, Nat.zero_mul] at inside
  split at inside
  · rw [Bool.and_eq_true, decide_eq_true_iff, decide_eq_true_iff] at inside
    omega
  · rw [Bool.and_eq_true, decide_eq_true_iff, decide_eq_true_iff] at inside
    omega

theorem contains_of_gridPoint? {i : Interval} {tie : Tie} {k : Int} {c : Nat}
    (found : i.gridPoint? tie k = some c) :
    i.contains c (Nat.pow 10 k.toNat) (Nat.pow 10 (-k).toNat) = true := by
  unfold gridPoint? at found
  dsimp only at found
  split at found
  · next left right =>
    split at found
    · rwa [Option.some.inj found] at left
    · split at found
      · rwa [Option.some.inj found] at right
      · split at found
        · rwa [Option.some.inj found] at left
        · rwa [Option.some.inj found] at right
  · next left _ => rwa [Option.some.inj found] at left
  · next _ right => rwa [Option.some.inj found] at right
  · cases found

theorem gridPoint?_ne_none {i : Interval} (tie : Tie) {k : Int}
    (beside :
      let up := Nat.pow 10 k.toNat
      let down := Nat.pow 10 (-k).toNat
      let floor := i.value * down / (i.denominator * up)
      i.contains floor up down = true ∨ i.contains (floor + 1) up down = true) :
    i.gridPoint? tie k ≠ none := by
  dsimp only at beside
  unfold gridPoint?
  dsimp only
  split
  · split
    · exact nofun
    · split
      · exact nofun
      · split <;> exact nofun
  · exact nofun
  · exact nofun
  · next left right =>
    rw [left, right] at beside
    rcases beside with none | none <;> cases none

/-- The search ends with digits if no grid point is zero and the last grid has one. -/
theorem shortestFrom_digits_pos {i : Interval} {tie : Tie} {leading : Int} (last : Nat)
    (positive : ∀ k c, i.gridPoint? tie k = some c → 0 < c)
    (ends : i.gridPoint? tie (leading - last + 1) ≠ none) (tries : Nat) :
    ∀ count, count + tries = last + 1 → 0 < tries →
      0 < (i.shortestFrom tie leading tries count).digits := by
  induction tries with
  | zero => exact fun _ _ none => absurd none (Nat.lt_irrefl 0)
  | succ tries ih =>
      intro count room _
      rw [shortestFrom]
      split
      · next c found => exact positive _ _ found
      · next missed =>
        refine ih (count + 1) (by omega) (Nat.pos_iff_ne_zero.2 ?_)
        rintro rfl
        have final : count = last := by omega
        rw [final] at missed
        exact ends missed

end Interval

/-! ## The digits of a double -/

namespace Dyadic

variable {d : Dyadic}

theorem interval_low_pos (pos : 0 < d.mantissa) : 0 < d.interval.low := by
  have scale : 0 < Nat.pow 2 d.exponent.toNat := Nat.pow_pos (by decide)
  refine Nat.mul_pos ?_ scale
  split <;> omega

/-- A grid with a spacing of at most the value over ten to the sixteenth has a point in the
interval, on one side of the value. -/
theorem contains_beside {up down : Nat} (small : d.mantissa < 2 * fractions) (down_pos : 0 < down)
    (spacing_pos : 0 < d.interval.denominator * up)
    (fine : 10000000000000000 * (d.interval.denominator * up) ≤ d.interval.value * down) :
    let floor := d.interval.value * down / (d.interval.denominator * up)
    d.interval.contains floor up down = true ∨ d.interval.contains (floor + 1) up down = true := by
  intro floor
  -- All is measured in units, of which there are four between a double and the next greater one.
  let unit := Nat.pow 2 d.exponent.toNat * down
  have unit_pos : 0 < unit := Nat.mul_pos (Nat.pow_pos (by decide)) down_pos
  have value : d.interval.value * down = 4 * (d.mantissa * unit) := by
    simp only [interval, unit, Nat.mul_assoc]
  have high : d.interval.high * down = 4 * (d.mantissa * unit) + 2 * unit := by
    simp only [interval, unit, Nat.mul_assoc, Nat.add_mul]
  have few : d.mantissa * unit < 9007199254740992 * unit :=
    Nat.mul_lt_mul_of_pos_right small unit_pos
  have point (c : Nat) : c * up * d.interval.denominator = d.interval.denominator * up * c := by
    ac_rfl
  have floor_le : d.interval.denominator * up * floor ≤ 4 * (d.mantissa * unit) := by
    rw [← value]
    exact Nat.mul_div_le _ _
  have lt_next : 4 * (d.mantissa * unit) < d.interval.denominator * up * (floor + 1) := by
    rw [← value]
    exact Nat.lt_mul_div_succ _ spacing_pos
  rw [Nat.mul_add, Nat.mul_one] at lt_next
  rw [value] at fine
  by_cases power : d.mantissa = fractions ∧ -1074 < d.exponent
  · have low : d.interval.low * down = 4 * (d.mantissa * unit) - unit := by
      simp only [interval, unit, if_pos power, Nat.sub_mul, Nat.mul_assoc, Nat.one_mul]
    have least : d.mantissa * unit = 4503599627370496 * unit := by
      rw [power.1]
      rfl
    right
    apply Interval.contains_of_lt
    · rw [point, low, Nat.mul_add, Nat.mul_one]
      omega
    · rw [point, high, Nat.mul_add, Nat.mul_one]
      omega
  · have low : d.interval.low * down = 4 * (d.mantissa * unit) - 2 * unit := by
      simp only [interval, unit, if_neg power, Nat.sub_mul, Nat.mul_assoc]
    by_cases near : 4 * (d.mantissa * unit) - 2 * unit < d.interval.denominator * up * floor
    · left
      apply Interval.contains_of_lt
      · rw [point, low]
        exact near
      · rw [point, high]
        omega
    · right
      apply Interval.contains_of_lt
      · rw [point, low, Nat.mul_add, Nat.mul_one]
        omega
      · rw [point, high, Nat.mul_add, Nat.mul_one]
        omega

theorem shortest_digits_pos (tie : Tie) (pos : 0 < d.mantissa)
    (small : d.mantissa < 2 * fractions) : 0 < (d.shortest tie).digits := by
  have value_pos : 0 < d.interval.value :=
    Nat.mul_pos (Nat.mul_pos (by decide) pos) (Nat.pow_pos (by decide))
  have denominator_pos : 0 < d.interval.denominator :=
    Nat.mul_pos (by decide) (Nat.pow_pos (by decide))
  have ten (n : Nat) : 0 < Nat.pow 10 n := Nat.pow_pos (by decide)
  have leads := leadingExponent_le value_pos denominator_pos
  unfold shortest
  dsimp only
  generalize leadingExponent d.interval.value d.interval.denominator = leading at leads
  refine Interval.shortestFrom_digits_pos 17 (fun k c found => ?_) ?_ 17 1 rfl (by decide)
  · exact Interval.pos_of_contains (Nat.mul_pos (interval_low_pos pos) (ten _))
      (Interval.contains_of_gridPoint? found)
  · -- With seventeen digits the last of them counts `10 ^ (leading - 16)`.
    refine Interval.gridPoint?_ne_none tie (contains_beside small (ten _)
      (Nat.mul_pos denominator_pos (ten _)) ?_)
    generalize grid : leading - (17 : Nat) + 1 = k
    have exponents : k.toNat + 16 + (-leading).toNat = leading.toNat + (-k).toNat := by omega
    have powers : Nat.pow 10 k.toNat * 10000000000000000 * Nat.pow 10 (-leading).toNat =
        Nat.pow 10 leading.toNat * Nat.pow 10 (-k).toNat := by
      have both := congrArg (fun n => 10 ^ n) exponents
      simp only [Nat.pow_add] at both
      exact both
    refine Nat.le_of_mul_le_mul_right ?_ (ten (-leading).toNat)
    calc 10000000000000000 * (d.interval.denominator * Nat.pow 10 k.toNat)
          * Nat.pow 10 (-leading).toNat
        = d.interval.denominator *
            (Nat.pow 10 k.toNat * 10000000000000000 * Nat.pow 10 (-leading).toNat) := by
          ac_rfl
      _ = Nat.pow 10 leading.toNat * d.interval.denominator * Nat.pow 10 (-k).toNat := by
          rw [powers]
          ac_rfl
      _ ≤ d.interval.value * Nat.pow 10 (-leading).toNat * Nat.pow 10 (-k).toNat :=
          Nat.mul_le_mul_right _ leads
      _ = d.interval.value * Nat.pow 10 (-k).toNat * Nat.pow 10 (-leading).toNat :=
          Nat.mul_right_comm _ _ _

end Dyadic

/-! ## The digits are set down as a numeral -/

/-- Digits that do not start with a zero. -/
structure Leads (digits : List Char) : Prop where
  isDigits : IsDigits digits
  head : digits.head? ≠ some '0'

theorem leads_decimalDigits {n : Nat} (pos : 0 < n) : Leads (Text.decimalDigits n) :=
  ⟨isDigits_decimalDigits n, head?_decimalDigits pos⟩

namespace Leads

variable {digits : List Char}

theorem take (leads : Leads digits) {places : Nat} (pos : 0 < places) :
    Leads (digits.take places) := by
  obtain ⟨places, rfl⟩ := Nat.exists_eq_succ_of_ne_zero (Nat.pos_iff_ne_zero.1 pos)
  obtain ⟨c, rest, rfl, _⟩ := leads.isDigits.exists_head
  exact ⟨⟨nofun, fun d among => leads.isDigits.2 d (List.mem_of_mem_take among)⟩, leads.head⟩

theorem append_zeros (leads : Leads digits) (n : Nat) :
    Leads (digits ++ List.replicate n '0') := by
  obtain ⟨c, rest, rfl, _⟩ := leads.isDigits.exists_head
  refine ⟨⟨nofun, fun d among => ?_⟩, leads.head⟩
  rcases List.mem_append.1 among with front | zero
  · exact leads.isDigits.2 d front
  · rw [List.eq_of_mem_replicate zero]
    rfl

theorem trimZeros (leads : Leads digits) : Leads (Decimal.trimZeros digits) := by
  have front : Decimal.trimZeros digits <+: digits := List.rdropWhile_prefix _ _
  have nonempty : Decimal.trimZeros digits ≠ [] := by
    intro empty
    obtain ⟨c, rest, rfl, _⟩ := leads.isDigits.exists_head
    have zero := List.rdropWhile_eq_nil_iff.1 empty c List.mem_cons_self
    exact leads.head (congrArg some (of_decide_eq_true zero))
  rw [List.prefix_iff_eq_take.1 front]
  exact leads.take (List.length_pos_iff.2 nonempty)

end Leads

theorem isDigits_zero : IsDigits ['0'] :=
  ⟨nofun, List.forall_mem_singleton.2 rfl⟩

/-- The text of a strict numeral without a sign. -/
def IsUnsigned (cs : List Char) : Prop :=
  ∃ n : Numeral, n.Strict ∧ n.negative = false ∧ n.text = cs

theorem isUnsigned_point {whole fraction : List Char} (isDigits : IsDigits whole)
    (leading : whole.head? = some '0' → whole.length = 1) (isDigits' : IsDigits fraction) :
    IsUnsigned (whole ++ '.' :: fraction) := by
  refine ⟨⟨false, whole, fraction, none⟩, ⟨isDigits, leading, .inr isDigits', fun e none => ?_⟩,
    rfl, ?_⟩
  · exact absurd none.symm (Option.some_ne_none e)
  · simp [Numeral.text, isDigits'.1]

theorem isUnsigned_setPoint {digits : List Char} (leads : Leads digits) (leading : Int) :
    IsUnsigned (setPoint .json digits leading).toList := by
  unfold setPoint
  dsimp only
  split_ifs with below short
  · -- zeros are filled in behind the point
    have fraction : IsDigits (List.replicate (-leading - 1).toNat '0' ++ digits) := by
      refine ⟨List.append_ne_nil_of_right_ne_nil _ leads.isDigits.1, fun c among => ?_⟩
      rcases List.mem_append.1 among with zero | digit
      · rw [List.eq_of_mem_replicate zero]
        rfl
      · exact leads.isDigits.2 c digit
    simpa using isUnsigned_point isDigits_zero (fun _ => rfl) fraction
  · -- zeros are filled in before the point
    have whole := leads.append_zeros (leading.toNat + 1 - digits.length)
    simpa [Layout.json] using
      isUnsigned_point whole.isDigits (fun zero => absurd zero whole.head) isDigits_zero
  · -- the point stands among the digits
    have whole := leads.take (Nat.succ_pos leading.toNat)
    have fraction : IsDigits (digits.drop (leading.toNat + 1)) := by
      refine ⟨fun empty => short (List.drop_eq_nil_iff.1 empty), fun c among => ?_⟩
      exact leads.isDigits.2 c (List.mem_of_mem_drop among)
    simpa using isUnsigned_point whole.isDigits (fun zero => absurd zero whole.head) fraction

theorem isUnsigned_setExponent {digits : List Char} (leads : Leads digits) (leading : Int) :
    IsUnsigned (setExponent digits leading).toList := by
  have whole := leads.take (Nat.succ_pos 0)
  refine ⟨⟨false, digits.take 1, digits.drop 1,
    some ⟨'e', some (if leading < 0 then '-' else '+'), Text.decimalDigits leading.natAbs⟩⟩,
    ⟨whole.isDigits, fun zero => absurd zero whole.head, ?_, fun e same => ?_⟩, rfl, ?_⟩
  · by_cases none : digits.drop 1 = []
    · exact .inl none
    · exact .inr ⟨none, fun c among => leads.isDigits.2 c (List.mem_of_mem_drop among)⟩
  · obtain rfl := Option.some.inj same
    refine ⟨.inl rfl, .inr ?_, isDigits_decimalDigits _⟩
    split
    · exact .inr rfl
    · exact .inl rfl
  · unfold setExponent
    by_cases none : digits.tail = [] <;> by_cases below : leading < 0 <;>
      simp [Numeral.text, Exponent.text, none, below]

theorem isUnsigned_spellMagnitude {d : Dyadic} (pos : 0 < d.mantissa)
    (small : d.mantissa < 2 * fractions) : IsUnsigned (spellMagnitude .json d).toList := by
  have leads := (leads_decimalDigits (d.shortest_digits_pos .even pos small)).trimZeros
  unfold spellMagnitude
  dsimp only
  split
  · exact isUnsigned_setPoint leads _
  · exact isUnsigned_setExponent leads _

theorem isUnsigned_zero : IsUnsigned "0.0".toList :=
  isUnsigned_point isDigits_zero (fun _ => rfl) isDigits_zero

theorem IsUnsigned.signed {cs : List Char} (unsigned : IsUnsigned cs) (negative : Bool) :
    ∃ n : Numeral, n.Strict ∧ n.text = (if negative then ['-'] else []) ++ cs := by
  obtain ⟨n, strict, plain, rfl⟩ := unsigned
  refine ⟨{ n with negative }, ⟨strict.whole, strict.leading, strict.fraction, strict.exponent⟩, ?_⟩
  simp [Numeral.text, plain]

/-! ## Every double -/

theorem Reading.mantissa_lt {x : Float} {negative : Bool} {d : Dyadic}
    (reading : Reading.ofFloat x = .finite negative d) : d.mantissa < 2 * fractions := by
  have part := Nat.mod_lt x.toBits.toNat (show 0 < fractions by decide)
  unfold Reading.ofFloat at reading
  dsimp only at reading
  split at reading
  · split at reading <;> cases reading
  · split at reading
    · cases reading
      show x.toBits.toNat % fractions < 2 * fractions
      omega
    · cases reading
      show fractions + x.toBits.toNat % fractions < 2 * fractions
      omega

/-- A finite magnitude is spelled in JSON as a strict numeral. -/
theorem exists_numeral_of_finite {x : Float} {negative : Bool} {d : Dyadic}
    (reading : Reading.ofFloat x = .finite negative d) :
    ∃ n : Numeral, n.Strict ∧ n.text = (jsonText x).toList := by
  have magnitude : IsUnsigned
      (if d.mantissa = 0 then "0" ++ Layout.json.wholeSuffix
        else spellMagnitude .json d).toList := by
    split
    · exact isUnsigned_zero
    · next nonzero =>
      exact isUnsigned_spellMagnitude (Nat.pos_of_ne_zero nonzero) (Reading.mantissa_lt reading)
  obtain ⟨n, strict, text⟩ := magnitude.signed negative
  refine ⟨n, strict, text.trans ?_⟩
  unfold jsonText spell
  rw [reading]
  cases negative <;> simp

/-- What has no finite magnitude is spelled `null`. -/
theorem jsonText_of_not_finite {x : Float}
    (other : ∀ negative d, Reading.ofFloat x ≠ .finite negative d) : jsonText x = "null" := by
  unfold jsonText spell
  cases reading : Reading.ofFloat x with
  | nan => rfl
  | infinite negative => cases negative <;> rfl
  | finite negative d => exact absurd reading (other negative d)

/-- A double is spelled in JSON as a strict numeral, or it is spelled `null`. -/
theorem exists_numeral_jsonText (x : Float) :
    (∃ n : Numeral, n.Strict ∧ n.text = (jsonText x).toList) ∨ jsonText x = "null" := by
  by_cases finite : ∃ negative d, Reading.ofFloat x = .finite negative d
  · obtain ⟨negative, d, reading⟩ := finite
    exact .inl (exists_numeral_of_finite reading)
  · exact .inr (jsonText_of_not_finite fun negative d reading => finite ⟨negative, d, reading⟩)

end QueryCost.Decimal
