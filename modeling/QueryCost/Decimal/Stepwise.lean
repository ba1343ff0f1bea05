/-
# QueryCost.Decimal.Stepwise -- doubles from numerals in rounded steps

The digits of a numeral are gathered in a word of 64 bits, the word becomes a
double, and the double is multiplied with a power of ten or divided by one.  Each of
these steps rounds to the nearest double, so the outcome can lie beside the double
nearest to the numeral.

Digits that do not fit the word are not gathered.  In front of the point each of
them still counts as a factor of ten; behind the point they count for nothing.
-/
import QueryCost.Decimal.Numeral

namespace QueryCost.Decimal

open QueryCost.Text

set_option autoImplicit false

/-! ## Gathering digits -/

/-- Put digits behind a number for as long as it fits a word; answers the number, and the digits
from the first one on that does not fit. -/
def gather (word : Nat) : List Char → Nat × List Char
  | [] => (word, [])
  | c :: rest =>
      let next := 10 * word + ofDecimalDigits [c]
      if next < UInt64.size then gather next rest else (word, c :: rest)

theorem gather_fst_lt {word : Nat} (h : word < UInt64.size) (digits : List Char) :
    (gather word digits).1 < UInt64.size := by
  induction digits generalizing word with
  | nil => exact h
  | cons c rest ih =>
    simp only [gather]
    split
    · next fits => exact ih fits
    · exact h

/-- A word that is to be multiplied with a power of ten. -/
structure Scaled where
  word : Nat
  exponent : Int

def Numeral.scaled (n : Numeral) : Scaled :=
  let (word, beyond) := gather 0 n.whole
  let (word, ignored) := gather word n.fraction
  ⟨word, (n.exponent.map Exponent.value).getD 0 + beyond.length
    - (n.fraction.length - ignored.length : Nat)⟩

/-! ## Scaling -/

/-- The exponent of the largest power of ten among the doubles. -/
def largestExponent : Nat := 308

def powerOfTen (exponent : Nat) : Float :=
  Float.ofScientific 1 false exponent

/-- A double of at least zero times a power of ten, unless that is beyond the range of doubles.
A division by more than the largest power is done in parts. -/
def scale? (x : Float) (exponent : Int) : Option Float :=
  if exponent.natAbs ≤ largestExponent then
    if 0 ≤ exponent then
      let y := x * powerOfTen exponent.natAbs
      if y.isFinite then some y else none
    else some (x / powerOfTen exponent.natAbs)
  else if x == 0.0 then some x
  else if 0 ≤ exponent then none
  else scale? (x / powerOfTen largestExponent) (exponent + largestExponent)
termination_by exponent.natAbs
decreasing_by
  simp only [largestExponent] at *
  omega

/-- The double that a numeral comes to, unless it is beyond the range of doubles. -/
def Numeral.stepwise? (n : Numeral) : Option Float :=
  (scale? (Float.ofNat n.scaled.word) n.scaled.exponent).map fun x => if n.negative then -x else x

end QueryCost.Decimal
