/-
# QueryCost.Decimal.Numeral -- numbers written with a point and an exponent

A numeral is a number as it is written: sign, digits before and after the point,
exponent.  Two spellings are read here.  The strict one is that of GraphQL and of
JSON: a digit before the point, no zero in front of another digit, and a point or
an exponent mark is followed by digits.  The free one lets the digits on one side
of the point be missing and zeros lead.

The value of a numeral is the double nearest to it; a tie goes to the even
neighbour.  Exponents far outside the range of doubles are answered without
computing the power of ten.
-/
import QueryCost.Text.Digits

namespace QueryCost.Decimal

open QueryCost.Text

set_option autoImplicit false

/-- The double nearest to `mantissa * 10 ^ exponent`. -/
def nearest (mantissa : Nat) (exponent : Int) : Float :=
  if mantissa = 0 then 0.0
  else if 400 < exponent then Float.ofScientific 1 false 400
  else if exponent + (mantissa.log2 / 3 : Nat) < -400 then 0.0
  else Float.ofScientific mantissa (decide (exponent < 0)) exponent.natAbs

structure Exponent where
  mark : Char
  sign : Option Char
  digits : List Char

namespace Exponent

def text (e : Exponent) : List Char :=
  e.mark :: e.sign.toList ++ e.digits

def value (e : Exponent) : Int :=
  if e.sign = some '-' then -(ofDecimalDigits e.digits : Int) else ofDecimalDigits e.digits

/-- Read what follows an exponent mark; at least one digit is needed. -/
def read? (mark : Char) (cs : List Char) : Option (Exponent × List Char) :=
  let (sign, rest) := match cs with
    | '+' :: rest => (some '+', rest)
    | '-' :: rest => (some '-', rest)
    | rest => (none, rest)
  let digits := rest.takeWhile Char.isDigit
  if digits.isEmpty then none
  else some (⟨mark, sign, digits⟩, rest.dropWhile Char.isDigit)

theorem text_append_of_read? {mark : Char} {cs rest : List Char} {e : Exponent}
    (h : read? mark cs = some (e, rest)) : e.text ++ rest = mark :: cs := by
  simp only [read?] at h
  split at h
  all_goals
    split at h
    · simp at h
    · simp only [Option.some.injEq, Prod.mk.injEq] at h
      obtain ⟨rfl, rfl⟩ := h
      simp [text]

end Exponent

structure Numeral where
  negative : Bool
  whole : List Char
  /-- The digits after the point; empty when there is no point. -/
  fraction : List Char
  exponent : Option Exponent

namespace Numeral

def text (n : Numeral) : List Char :=
  (if n.negative then ['-'] else []) ++ n.whole
    ++ (if n.fraction.isEmpty then [] else '.' :: n.fraction)
    ++ (n.exponent.map Exponent.text).getD []

/-- A numeral without point and exponent names an integer. -/
def isInteger (n : Numeral) : Bool :=
  n.fraction.isEmpty && n.exponent.isNone

/-- The number before the sign and without point and exponent. -/
def natural (n : Numeral) : Nat :=
  ofDecimalDigits n.whole

def toFloat (n : Numeral) : Float :=
  let magnitude := nearest (ofDecimalDigits (n.whole ++ n.fraction))
    ((n.exponent.map Exponent.value).getD 0 - n.fraction.length)
  if n.negative then -magnitude else magnitude

/-! ## Strict numerals -/

/-- Digits after a point, if there is one. -/
def readFraction? : List Char → Option (List Char × List Char)
  | '.' :: rest =>
      let digits := rest.takeWhile Char.isDigit
      if digits.isEmpty then none else some (digits, rest.dropWhile Char.isDigit)
  | rest => some ([], rest)

def readExponent? : List Char → Option (Option Exponent × List Char)
  | 'e' :: rest => (Exponent.read? 'e' rest).map fun (e, rest) => (some e, rest)
  | 'E' :: rest => (Exponent.read? 'E' rest).map fun (e, rest) => (some e, rest)
  | rest => some (none, rest)

/-- Read a strict numeral and what follows it. -/
def read? (cs : List Char) : Option (Numeral × List Char) := do
  let (negative, cs) := match cs with
    | '-' :: rest => (true, rest)
    | rest => (false, rest)
  let whole := cs.takeWhile Char.isDigit
  let cs := cs.dropWhile Char.isDigit
  if whole.isEmpty || (whole.head? == some '0' && 1 < whole.length) then none
  else
    let (fraction, cs) ← readFraction? cs
    let (exponent, cs) ← readExponent? cs
    some (⟨negative, whole, fraction, exponent⟩, cs)

/-! ### What was read and what is left are the text -/

theorem text_append_of_readFraction? {cs rest fraction : List Char}
    (h : readFraction? cs = some (fraction, rest)) :
    (if fraction.isEmpty then [] else '.' :: fraction) ++ rest = cs := by
  simp only [readFraction?] at h
  split at h
  · split at h
    · simp at h
    · next nonempty =>
      simp only [Option.some.injEq, Prod.mk.injEq] at h
      obtain ⟨rfl, rfl⟩ := h
      simp [nonempty]
  · simp only [Option.some.injEq, Prod.mk.injEq] at h
    obtain ⟨rfl, rfl⟩ := h
    rfl

theorem text_append_of_readExponent? {cs rest : List Char} {exponent : Option Exponent}
    (h : readExponent? cs = some (exponent, rest)) :
    (exponent.map Exponent.text).getD [] ++ rest = cs := by
  simp only [readExponent?] at h
  split at h
  · obtain ⟨⟨e, r⟩, he, heq⟩ := Option.map_eq_some_iff.1 h
    obtain ⟨rfl, rfl⟩ := Prod.mk.inj heq
    exact Exponent.text_append_of_read? he
  · obtain ⟨⟨e, r⟩, he, heq⟩ := Option.map_eq_some_iff.1 h
    obtain ⟨rfl, rfl⟩ := Prod.mk.inj heq
    exact Exponent.text_append_of_read? he
  · simp only [Option.some.injEq, Prod.mk.injEq] at h
    obtain ⟨rfl, rfl⟩ := h
    rfl

theorem text_append_of_read? {cs rest : List Char} {n : Numeral}
    (h : read? cs = some (n, rest)) : n.text ++ rest = cs ∧ n.whole ≠ [] := by
  simp only [read?] at h
  split at h
  all_goals
    split at h
    · simp at h
    · next wellFormed =>
      obtain ⟨⟨fraction, cs₁⟩, hf, h⟩ := Option.bind_eq_some_iff.1 h
      obtain ⟨⟨exponent, cs₂⟩, he, h⟩ := Option.bind_eq_some_iff.1 h
      simp only [Option.some.injEq, Prod.mk.injEq] at h
      obtain ⟨rfl, rfl⟩ := h
      refine ⟨?_, fun empty => wellFormed ?_⟩
      · simp only [text, List.append_assoc, text_append_of_readExponent? he,
          text_append_of_readFraction? hf, List.takeWhile_append_dropWhile]
        rfl
      · rw [Bool.or_eq_true, List.isEmpty_iff]
        exact .inl empty

theorem length_lt_of_read? {cs rest : List Char} {n : Numeral}
    (h : read? cs = some (n, rest)) : rest.length < cs.length := by
  obtain ⟨happend, hwhole⟩ := text_append_of_read? h
  have : 0 < n.whole.length := List.length_pos_iff.2 hwhole
  rw [← happend]
  simp only [text, List.length_append]
  omega

/-! ## Free numerals -/

/-- Read the whole of a text as a numeral in the free spelling, after its sign. -/
def ofFreeText? (negative : Bool) (cs : List Char) : Option Numeral := do
  let whole := cs.takeWhile Char.isDigit
  let (fraction, cs) := match cs.dropWhile Char.isDigit with
    | '.' :: rest => (rest.takeWhile Char.isDigit, rest.dropWhile Char.isDigit)
    | rest => ([], rest)
  if whole.isEmpty && fraction.isEmpty then none
  else
    let (exponent, cs) ← readExponent? cs
    if cs.isEmpty then some ⟨negative, whole, fraction, exponent⟩ else none

end Numeral

/-! ## Any double -/

def infinity : Float := 1.0 / 0.0

def notANumber : Float := 0.0 / 0.0

/-- A double behind its sign: a free numeral or a word, in capitals or not. -/
def unsignedOfText? (negative : Bool) (cs : List Char) : Option Float :=
  let word := cs.map Char.toLower
  if word = "inf".toList || word = "infinity".toList then
    some (if negative then -infinity else infinity)
  else if word = "nan".toList then some notANumber
  else (Numeral.ofFreeText? negative cs).map Numeral.toFloat

/-- The double that a whole text names; a numeral beyond the range of doubles is infinite. -/
def ofText? (text : String) : Option Float :=
  match text.toList with
  | '+' :: rest => unsignedOfText? false rest
  | '-' :: rest => unsignedOfText? true rest
  | cs => unsignedOfText? false cs

end QueryCost.Decimal
