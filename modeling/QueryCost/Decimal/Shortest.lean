/-
# QueryCost.Decimal.Shortest -- the fewest digits that read back

A finite positive double is `m * 2 ^ q`.  The reals that round to it fill an
interval around it, whose ends belong to it exactly when `m` is even.  Among the
decimals `c * 10 ^ k` in that interval the shortest have the fewest digits, and
of those the nearest to the double is chosen.  A format says which of two equally
near ones that is.

A grid `10 ^ k` has a point in an interval around a value only if one of the two
grid points next to the value is in it, so those two are all that is tried, for
one digit, two digits, and so on.  Seventeen digits always suffice.  All of it is
exact arithmetic on natural numbers.
-/
import QueryCost.Text.Digits

namespace QueryCost.Decimal

set_option autoImplicit false

/-- A finite magnitude, `mantissa * 2 ^ exponent`. -/
structure Dyadic where
  mantissa : Nat
  exponent : Int

/-- What the bits of a double say: its sign, and its magnitude unless it is infinite or no number. -/
inductive Reading
  | nan
  | infinite (negative : Bool)
  | finite (negative : Bool) (magnitude : Dyadic)

/-- The number of values that the stored part of a mantissa has. -/
def fractions : Nat := 0x10000000000000

def Reading.ofFloat (x : Float) : Reading :=
  let bits := x.toBits.toNat
  let negative := bits / fractions / 2048 = 1
  let biased : Nat := bits / fractions % 2048
  let fraction : Nat := bits % fractions
  if biased = 2047 then if fraction = 0 then .infinite negative else .nan
  else if biased = 0 then .finite negative ⟨fraction, -1074⟩
  else .finite negative ⟨fractions + fraction, (biased : Int) - 1075⟩

/-- A positive decimal, `digits * 10 ^ exponent`. -/
structure Decadic where
  digits : Nat
  exponent : Int

/-- The reals that round to a double, with the double itself, all over one denominator. -/
structure Interval where
  low : Nat
  value : Nat
  high : Nat
  denominator : Nat
  closed : Bool

/-- The interval of a positive magnitude.  Below a power of two the doubles stand twice as dense. -/
def Dyadic.interval (d : Dyadic) : Interval :=
  let scale := Nat.pow 2 d.exponent.toNat
  let below := if d.mantissa = fractions ∧ -1074 < d.exponent then 1 else 2
  { low := (4 * d.mantissa - below) * scale
    value := 4 * d.mantissa * scale
    high := (4 * d.mantissa + 2) * scale
    denominator := 4 * Nat.pow 2 (-d.exponent).toNat
    closed := d.mantissa % 2 = 0 }

/-- The exponent of ten of the first digit of `numerator / denominator`. -/
def leadingExponent (numerator denominator : Nat) : Int :=
  if denominator ≤ numerator then (Text.decimalDigits (numerator / denominator)).length - 1
  else
    let places := (Text.decimalDigits (denominator / numerator)).length
    if numerator * Nat.pow 10 (places - 1) = denominator then 1 - places else -places

/-- Which of two equally near neighbours is taken. -/
inductive Tie
  | even | greater
  deriving DecidableEq, Repr

namespace Interval

/-- Whether `c * up / down` lies in the interval. -/
def contains (i : Interval) (c up down : Nat) : Bool :=
  let point := c * up * i.denominator
  if i.closed then i.low * down ≤ point && point ≤ i.high * down
  else i.low * down < point && point < i.high * down

/-- The point of the grid `10 ^ k` in the interval that is nearest to the value. -/
def gridPoint? (i : Interval) (tie : Tie) (k : Int) : Option Nat :=
  let up := Nat.pow 10 k.toNat
  let down := Nat.pow 10 (-k).toNat
  let floor := i.value * down / (i.denominator * up)
  let left := i.value * down - floor * up * i.denominator
  let right := (floor + 1) * up * i.denominator - i.value * down
  match i.contains floor up down, i.contains (floor + 1) up down with
  | true, true =>
      if left < right then some floor
      else if right < left then some (floor + 1)
      else if tie = .even && floor % 2 = 0 then some floor else some (floor + 1)
  | true, false => some floor
  | false, true => some (floor + 1)
  | false, false => none

/-- Try grids from `count` digits on, at most `tries` of them. -/
def shortestFrom (i : Interval) (tie : Tie) (leading : Int) : Nat → Nat → Decadic
  | 0, count => ⟨i.value / i.denominator, leading - count⟩
  | tries + 1, count =>
      let k := leading - count + 1
      match i.gridPoint? tie k with
      | some c => ⟨c, k⟩
      | none => shortestFrom i tie leading tries (count + 1)

end Interval

/-- The shortest decimal that reads back as a positive magnitude. -/
def Dyadic.shortest (d : Dyadic) (tie : Tie) : Decadic :=
  let i := d.interval
  i.shortestFrom tie (leadingExponent i.value i.denominator) 17 1

end QueryCost.Decimal
