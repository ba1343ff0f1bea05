/-
# QueryCost.Proofs.Decimal.Strict -- the numerals that the strict reader reads

A strict numeral is described by its parts, without the reader.  The reader answers
strict numerals only (`strict_of_read?`), and it finds every strict numeral that
stands in front of a text which does not carry it on (`read?_text_append`): a digit, a
point or an exponent mark behind a numeral would be taken for a part of it.  The decimal
digits of an integer, behind its sign, are a strict numeral (`strict_ofInt`).
-/
import QueryCost.Decimal.Numeral

namespace QueryCost.Decimal

set_option autoImplicit false

/-- One decimal digit or more. -/
def IsDigits (cs : List Char) : Prop :=
  cs ≠ [] ∧ ∀ c ∈ cs, c.isDigit = true

structure Exponent.Strict (e : Exponent) : Prop where
  mark : e.mark = 'e' ∨ e.mark = 'E'
  sign : e.sign = none ∨ e.sign = some '+' ∨ e.sign = some '-'
  digits : IsDigits e.digits

structure Numeral.Strict (n : Numeral) : Prop where
  whole : IsDigits n.whole
  leading : n.whole.head? = some '0' → n.whole.length = 1
  fraction : n.fraction = [] ∨ IsDigits n.fraction
  exponent : ∀ e, n.exponent = some e → e.Strict

/-- No part of a numeral stands at the start of the text. -/
def EndsNumeral (cs : List Char) : Prop :=
  ∀ c, cs.head? = some c → c.isDigit = false ∧ c ≠ '.' ∧ c ≠ 'e' ∧ c ≠ 'E'

theorem EndsNumeral.digit {rest : List Char} (ends : EndsNumeral rest) :
    ∀ c, rest.head? = some c → c.isDigit = false :=
  fun c first => (ends c first).1

/-! ## Runs of digits -/

theorem takeWhile_isDigit_append {digits rest : List Char}
    (all : ∀ c ∈ digits, c.isDigit = true)
    (stop : ∀ c, rest.head? = some c → c.isDigit = false) :
    (digits ++ rest).takeWhile Char.isDigit = digits := by
  rw [List.takeWhile_append_of_pos all]
  cases rest with
  | nil => simp
  | cons c rest => rw [List.takeWhile_cons_of_neg (by simp [stop c rfl]), List.append_nil]

theorem dropWhile_isDigit_append {digits rest : List Char}
    (all : ∀ c ∈ digits, c.isDigit = true)
    (stop : ∀ c, rest.head? = some c → c.isDigit = false) :
    (digits ++ rest).dropWhile Char.isDigit = rest := by
  rw [List.dropWhile_append_of_pos all]
  cases rest with
  | nil => rfl
  | cons c rest => rw [List.dropWhile_cons_of_neg (by simp [stop c rfl])]

theorem isDigits_takeWhile {cs : List Char}
    (nonempty : (cs.takeWhile Char.isDigit).isEmpty = false) :
    IsDigits (cs.takeWhile Char.isDigit) := by
  refine ⟨fun empty => ?_, fun c among => ?_⟩
  · rw [empty] at nonempty
    cases nonempty
  · exact List.all_eq_true.1 List.all_takeWhile c among

theorem IsDigits.isEmpty {cs : List Char} (digits : IsDigits cs) : cs.isEmpty = false := by
  rw [List.isEmpty_eq_false_iff]
  exact digits.1

theorem IsDigits.exists_head {cs : List Char} (digits : IsDigits cs) :
    ∃ c rest, cs = c :: rest ∧ c.isDigit = true := by
  obtain ⟨c, rest, rfl⟩ := List.exists_cons_of_ne_nil digits.1
  exact ⟨c, rest, rfl, digits.2 c List.mem_cons_self⟩

/-- A strict numeral starts with its sign or with a digit. -/
theorem Numeral.Strict.exists_head_text {n : Numeral} (strict : n.Strict) :
    ∃ c cs, n.text = c :: cs ∧ (c = '-' ∨ c.isDigit = true) := by
  obtain ⟨negative, whole, fraction, exponent⟩ := n
  obtain ⟨c, more, rfl, digit⟩ := strict.whole.exists_head
  cases negative with
  | true => exact ⟨'-', _, rfl, .inl rfl⟩
  | false => exact ⟨c, _, rfl, .inr digit⟩

/-! ## What is read is strict -/

theorem Exponent.strict_of_read? {mark : Char} {cs rest : List Char} {e : Exponent}
    (isMark : mark = 'e' ∨ mark = 'E') (read : Exponent.read? mark cs = some (e, rest)) :
    e.Strict := by
  simp only [Exponent.read?] at read
  split at read
  all_goals
    split at read
    · cases read
    · next nonempty =>
      simp only [Option.some.injEq, Prod.mk.injEq] at read
      obtain ⟨rfl, rfl⟩ := read
      exact ⟨isMark, by simp, isDigits_takeWhile (Bool.eq_false_iff.2 nonempty)⟩

namespace Numeral

theorem isDigits_of_readFraction? {cs rest fraction : List Char}
    (read : readFraction? cs = some (fraction, rest)) :
    fraction = [] ∨ IsDigits fraction := by
  simp only [readFraction?] at read
  split at read
  · split at read
    · cases read
    · next nonempty =>
      simp only [Option.some.injEq, Prod.mk.injEq] at read
      obtain ⟨rfl, rfl⟩ := read
      exact .inr (isDigits_takeWhile (Bool.eq_false_iff.2 nonempty))
  · simp only [Option.some.injEq, Prod.mk.injEq] at read
    exact .inl read.1.symm

theorem strict_of_readExponent? {cs rest : List Char} {exponent : Option Exponent}
    (read : readExponent? cs = some (exponent, rest)) :
    ∀ e, exponent = some e → e.Strict := by
  intro e present
  subst present
  simp only [readExponent?] at read
  split at read
  · obtain ⟨⟨e', r⟩, found, same⟩ := Option.map_eq_some_iff.1 read
    simp only [Prod.mk.injEq, Option.some.injEq] at same
    obtain ⟨rfl, rfl⟩ := same
    exact Exponent.strict_of_read? (.inl rfl) found
  · obtain ⟨⟨e', r⟩, found, same⟩ := Option.map_eq_some_iff.1 read
    simp only [Prod.mk.injEq, Option.some.injEq] at same
    obtain ⟨rfl, rfl⟩ := same
    exact Exponent.strict_of_read? (.inr rfl) found
  · simp at read

theorem strict_of_read? {cs rest : List Char} {n : Numeral}
    (read : read? cs = some (n, rest)) : n.Strict := by
  simp only [read?] at read
  split at read
  all_goals
    split at read
    · cases read
    · next wellFormed =>
      obtain ⟨⟨fraction, cs₁⟩, fractionRead, read⟩ := Option.bind_eq_some_iff.1 read
      obtain ⟨⟨exponent, cs₂⟩, exponentRead, read⟩ := Option.bind_eq_some_iff.1 read
      simp only [Option.some.injEq, Prod.mk.injEq] at read
      obtain ⟨rfl, rfl⟩ := read
      rw [Bool.or_eq_true, not_or] at wellFormed
      obtain ⟨nonempty, leading⟩ := wellFormed
      have whole := isDigits_takeWhile (Bool.eq_false_iff.2 nonempty)
      refine ⟨whole, fun zero => ?_, isDigits_of_readFraction? fractionRead,
        strict_of_readExponent? exponentRead⟩
      have positive := List.length_pos_iff.2 whole.1
      simp only [zero, beq_self_eq_true, Bool.true_and, decide_eq_true_eq] at leading
      exact Nat.le_antisymm (Nat.not_lt.1 leading) positive

end Numeral

/-! ## Strict numerals are read -/

theorem Exponent.Strict.read? {e : Exponent} (strict : e.Strict) {rest : List Char}
    (ends : EndsNumeral rest) :
    Exponent.read? e.mark (e.sign.toList ++ e.digits ++ rest) = some (e, rest) := by
  obtain ⟨mark, sign, digits⟩ := e
  obtain ⟨-, signed, all⟩ := strict
  have taken := takeWhile_isDigit_append all.2 ends.digit
  have dropped := dropWhile_isDigit_append all.2 ends.digit
  have nonempty : digits.isEmpty = false := all.isEmpty
  simp only at signed
  rcases signed with rfl | rfl | rfl
  · -- without a sign the text starts with a digit, which is no sign
    obtain ⟨c, more, rfl, digit⟩ := all.exists_head
    have notPlus : c ≠ '+' := fun same => absurd digit (by rw [same]; decide)
    have notMinus : c ≠ '-' := fun same => absurd digit (by rw [same]; decide)
    rw [List.cons_append] at taken dropped
    simp [Exponent.read?, notPlus, notMinus, taken, dropped]
  · simp [Exponent.read?, taken, dropped, nonempty]
  · simp [Exponent.read?, taken, dropped, nonempty]

namespace Numeral

theorem readExponent?_append {exponent : Option Exponent}
    (strict : ∀ e, exponent = some e → e.Strict) {rest : List Char} (ends : EndsNumeral rest) :
    readExponent? ((exponent.map Exponent.text).getD [] ++ rest) = some (exponent, rest) := by
  cases exponent with
  | none =>
      cases rest with
      | nil => rfl
      | cons c rest =>
          have stop := ends c rfl
          simp only [readExponent?, Option.map_none, Option.getD_none, List.nil_append]
          split
          · next same =>
            injection same with same
            exact absurd same stop.2.2.1
          · next same =>
            injection same with same
            exact absurd same stop.2.2.2
          · rfl
  | some e =>
      have strict := strict e rfl
      have found := strict.read? ends
      simp only [Option.map_some, Option.getD_some, Exponent.text, List.cons_append,
        List.append_assoc] at found ⊢
      rcases strict.mark with mark | mark
      · rw [mark] at found ⊢
        simp only [readExponent?, found, Option.map_some]
      · rw [mark] at found ⊢
        simp only [readExponent?, found, Option.map_some]

/-- Neither an exponent nor the rest behind it starts with a digit or a point. -/
theorem head_exponent_append {exponent : Option Exponent}
    (strict : ∀ e, exponent = some e → e.Strict) {rest : List Char} (ends : EndsNumeral rest) :
    ∀ c, ((exponent.map Exponent.text).getD [] ++ rest).head? = some c →
      c.isDigit = false ∧ c ≠ '.' := by
  intro c first
  cases exponent with
  | none => exact ⟨(ends c first).1, (ends c first).2.1⟩
  | some e =>
      simp only [Option.map_some, Option.getD_some, Exponent.text, List.cons_append,
        List.head?_cons, Option.some.injEq] at first
      subst first
      rcases (strict e rfl).mark with mark | mark
      · rw [mark]
        decide
      · rw [mark]
        decide

theorem readFraction?_append {fraction rest : List Char}
    (strict : fraction = [] ∨ IsDigits fraction)
    (stop : ∀ c, rest.head? = some c → c.isDigit = false ∧ c ≠ '.') :
    readFraction? ((if fraction.isEmpty then [] else '.' :: fraction) ++ rest)
      = some (fraction, rest) := by
  rcases strict with rfl | digits
  · cases rest with
    | nil => rfl
    | cons c rest =>
        simp only [readFraction?, List.isEmpty_nil, if_true, List.nil_append]
        split
        · next same =>
          injection same with same
          exact absurd same (stop c rfl).2
        · rfl
  · have digit : ∀ c, rest.head? = some c → c.isDigit = false := fun c first => (stop c first).1
    have nonempty : fraction.isEmpty = false := digits.isEmpty
    simp only [readFraction?, nonempty, Bool.false_eq_true, if_false, List.cons_append,
      takeWhile_isDigit_append digits.2 digit, dropWhile_isDigit_append digits.2 digit]

theorem head_fraction_append {fraction rest : List Char}
    (stop : ∀ c, rest.head? = some c → c.isDigit = false) :
    ∀ c, ((if fraction.isEmpty then [] else '.' :: fraction) ++ rest).head? = some c →
      c.isDigit = false := by
  intro c first
  cases fraction with
  | nil => exact stop c first
  | cons d ds =>
      simp only [List.isEmpty_cons, Bool.false_eq_true, if_false, List.cons_append,
        List.head?_cons, Option.some.injEq] at first
      rw [← first]
      rfl

theorem read?_text_append {n : Numeral} (strict : n.Strict) {rest : List Char}
    (ends : EndsNumeral rest) : read? (n.text ++ rest) = some (n, rest) := by
  obtain ⟨negative, whole, fraction, exponent⟩ := n
  obtain ⟨digits, leading, fractional, exponential⟩ := strict
  simp only at digits leading fractional exponential
  -- what follows the digits in front of the point
  let behind := (exponent.map Exponent.text).getD [] ++ rest
  let tail := (if fraction.isEmpty then [] else '.' :: fraction) ++ behind
  have stop := head_exponent_append exponential ends
  have stopTail : ∀ c, tail.head? = some c → c.isDigit = false :=
    head_fraction_append fun c first => (stop c first).1
  have fractionRead : readFraction? tail = some (fraction, behind) :=
    readFraction?_append fractional stop
  have exponentRead : readExponent? behind = some (exponent, rest) :=
    readExponent?_append exponential ends
  have taken : (whole ++ tail).takeWhile Char.isDigit = whole :=
    takeWhile_isDigit_append digits.2 stopTail
  have dropped : (whole ++ tail).dropWhile Char.isDigit = tail :=
    dropWhile_isDigit_append digits.2 stopTail
  have wellFormed : ¬(whole.isEmpty || (whole.head? == some '0' && 1 < whole.length)) = true := by
    rw [digits.isEmpty, Bool.false_or, Bool.and_eq_true, beq_iff_eq, decide_eq_true_eq]
    rintro ⟨zero, long⟩
    have := leading zero
    omega
  have shape : text ⟨negative, whole, fraction, exponent⟩ ++ rest =
      (if negative then ['-'] else []) ++ (whole ++ tail) := by
    simp only [text, tail, behind, List.append_assoc]
  rw [shape]
  cases negative with
  | true =>
      simp only [read?, if_true, List.cons_append, List.nil_append, taken, dropped,
        if_neg wellFormed, fractionRead, Option.bind_eq_bind, Option.bind_some, exponentRead]
  | false =>
      -- the reader looks for a minus sign first, and there is none
      have unsigned : ∀ x, whole ++ tail = '-' :: x → False := by
        intro x minus
        obtain ⟨c, more, same, digit⟩ := digits.exists_head
        rw [same] at minus
        injection minus with minus
        rw [minus] at digit
        exact absurd digit (by decide)
      simp only [read?, Bool.false_eq_true, if_false, List.nil_append, taken, dropped,
        if_neg wellFormed, fractionRead, Option.bind_eq_bind, Option.bind_some, exponentRead]

end Numeral

/-! ## Integers -/

theorem hexDigit?_digitChar {d : Nat} (small : d < 10) :
    Text.hexDigit? (Nat.digitChar d) = some d := by
  have all : ∀ d < 10, Text.hexDigit? (Nat.digitChar d) = some d := by decide
  exact all d small

theorem ofDigits?_append_digitChar {n d : Nat} {digits : List Char} (small : d < 10)
    (named : Text.ofDigits? 10 digits = some n) :
    Text.ofDigits? 10 (digits ++ [Nat.digitChar d]) = some (n * 10 + d) := by
  unfold Text.ofDigits? at named ⊢
  rw [List.foldl_append, named]
  simp [hexDigit?_digitChar small, small]

/-- The decimal digits of a number name it. -/
theorem ofDigits?_decimalDigits (n : Nat) : Text.ofDigits? 10 (Text.decimalDigits n) = some n := by
  unfold Text.decimalDigits
  induction n using Nat.strongRecOn with
  | _ n ih =>
      by_cases small : n < 10
      · rw [Nat.toDigits_of_lt_base small]
        have named : Text.ofDigits? 10 ([] ++ [Nat.digitChar n]) = some (0 * 10 + n) :=
          ofDigits?_append_digitChar small rfl
        rwa [List.nil_append, Nat.zero_mul, Nat.zero_add] at named
      · rw [Nat.toDigits_of_base_le (by decide) (by omega)]
        have lower := ih (n / 10) (by omega)
        rw [ofDigits?_append_digitChar (Nat.mod_lt n (by decide)) lower, Nat.div_add_mod']

theorem isDigits_decimalDigits (n : Nat) : IsDigits (Text.decimalDigits n) :=
  ⟨Nat.toDigits_ne_nil, fun _ among => Nat.isDigit_of_mem_toDigits (by decide) (by decide) among⟩

theorem head?_decimalDigits {n : Nat} (positive : 0 < n) :
    (Text.decimalDigits n).head? ≠ some '0' := by
  unfold Text.decimalDigits
  induction n using Nat.strongRecOn with
  | _ n ih =>
      by_cases small : n < 10
      · rw [Nat.toDigits_of_lt_base small]
        simp only [List.head?_cons, ne_eq, Option.some.injEq, Nat.digitChar_eq_zero]
        omega
      · have higher := ih (n / 10) (by omega) (by omega)
        obtain ⟨c, more, same⟩ :=
          List.exists_cons_of_ne_nil (Nat.toDigits_ne_nil (b := 10) (n := n / 10))
        rw [Nat.toDigits_of_base_le (by decide) (by omega), same]
        rw [same] at higher
        exact higher

namespace Numeral

/-- The numeral of an integer: its decimal digits, behind a minus sign if it is negative. -/
def ofInt (n : Int) : Numeral :=
  ⟨decide (n < 0), Text.decimalDigits n.natAbs, [], none⟩

theorem natural_ofInt (n : Int) : (ofInt n).natural = n.natAbs := by
  unfold natural ofInt Text.ofDecimalDigits
  rw [ofDigits?_decimalDigits]
  rfl

theorem strict_ofInt (n : Int) : (ofInt n).Strict := by
  refine ⟨isDigits_decimalDigits _, fun zero => ?_, .inl rfl, nofun⟩
  rcases Nat.eq_zero_or_pos n.natAbs with none | positive
  · show (Text.decimalDigits n.natAbs).length = 1
    rw [none]
    rfl
  · exact absurd zero (head?_decimalDigits positive)

end Numeral

end QueryCost.Decimal
