/-
# QueryCost.Yaml.Number -- numbers in plain scalars

A size is written in decimal digits without leading zeros, or in another base
behind `0x`, `0o` or `0b`; a plus sign may stand in front.  An amount is a numeral
in the free spelling, with either sign, an infinity, or no number; a numeral beyond
the range of doubles is no amount.
-/
import QueryCost.Decimal.Numeral
import QueryCost.Text.Digits

namespace QueryCost.Yaml

open QueryCost.Text
open QueryCost.Decimal (infinity notANumber)

set_option autoImplicit false

/-- The number that at least one digit of a base names, if it fits 64 bits. -/
def sizeInBase? (base : Nat) (digits : List Char) : Option Nat := do
  let n ← ofDigits? base digits
  if digits.isEmpty || UInt64.size ≤ n then none else some n

/-- Digits that start with a zero, which is not the only one. -/
def hasLeadingZero : List Char → Bool
  | '0' :: _ :: _ => true
  | _ => false

def sizeOfText? (text : String) : Option Nat :=
  let unsigned := match text.toList with
    | '+' :: rest => rest
    | cs => cs
  match unsigned with
  | '0' :: 'x' :: digits => sizeInBase? 16 digits
  | '0' :: 'o' :: digits => sizeInBase? 8 digits
  | '0' :: 'b' :: digits => sizeInBase? 2 digits
  | digits => if hasLeadingZero digits then none else sizeInBase? 10 digits

/-- A numeral behind its sign, if doubles reach so far. -/
def finiteOfText? (negative : Bool) (cs : List Char) : Option Float := do
  let n ← Decimal.Numeral.ofFreeText? negative cs
  if n.toFloat.isFinite then some n.toFloat else none

def amountOfText? (text : String) : Option Float :=
  if text ∈ [".inf", ".Inf", ".INF", "+.inf", "+.Inf", "+.INF"] then some infinity
  else if text ∈ ["-.inf", "-.Inf", "-.INF"] then some (-infinity)
  else if text ∈ [".nan", ".NaN", ".NAN"] then some notANumber
  else
    match text.toList with
    | '+' :: rest => finiteOfText? false rest
    | '-' :: rest => finiteOfText? true rest
    | cs => finiteOfText? false cs

end QueryCost.Yaml
